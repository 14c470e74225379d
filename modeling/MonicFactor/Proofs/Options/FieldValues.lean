import Mathlib.Tactic.Common
import MonicFactor.Options.Basic
import MonicFactor.Proofs.Json.Members
import MonicFactor.Proofs.Json.NumberText

/-! Options depend on what is found under three keys only. A form sends its numbers as strings: a
number and its text come to the same options, or to the same error. -/

namespace MonicFactor

section Readers

variable {α : Type} {default : α} {ofText : String → Option α} {ofNumber : JsonNumber → Option α}
  {object object' : Json} {field : String}

theorem readField_congr (h : object.get? field = object'.get? field) :
    readField object field default ofText ofNumber =
      readField object' field default ofText ofNumber := by
  rw [readField, readField, h]

theorem readField_number {n : JsonNumber} (h : object.get? field = some (.number n))
    (h' : object'.get? field = some (.string n.render)) (hn : ofText n.render = ofNumber n) :
    readField object field default ofText ofNumber =
      readField object' field default ofText ofNumber := by
  have hblank : ¬isBlankText n.render = true := by
    rw [n.isBlankText_render]
    exact nofun
  rw [readField, readField, h, h']
  simp only [if_neg hblank, n.trimText_render, hn]

theorem readAlgorithm_congr (h : object.get? "alg" = object'.get? "alg") :
    readAlgorithm object = readAlgorithm object' := by
  rw [readAlgorithm, readAlgorithm, h]

end Readers

theorem Options.ofJson_congr {members members' : List (String × Json)}
    (ha : readAlgorithm (.object members) = readAlgorithm (.object members'))
    (hp : ∀ default,
      readField (.object members) "precision" default (fun text => (readUInt32 text).toOption)
          JsonNumber.toUInt32? =
        readField (.object members') "precision" default (fun text => (readUInt32 text).toOption)
          JsonNumber.toUInt32?)
    (hd : ∀ default,
      readField (.object members) "delta" default Double.read? (fun n => some n.toDouble) =
        readField (.object members') "delta" default Double.read? fun n => some n.toDouble) :
    ofJson (.object members) = ofJson (.object members') := by
  simp only [ofJson, ha, hp, hd]

theorem Json.text_number (n : JsonNumber) : (number n).text = n.render := by
  rw [text, render, String.ofList_toList]

/-- A number in a field that takes one, and the text of the number there as a form sends it. -/
theorem Options.ofJson_number_text (members : List (String × Json)) (n : JsonNumber) :
    ∀ field ∈ ["precision", "delta"],
      ofJson (.object (insertMember field (.number n) members)) =
        ofJson (.object (insertMember field (.string (Json.number n).text) members)) := by
  intro field hf
  let number := insertMember field (.number n) members
  let text := insertMember field (.string (Json.number n).text) members
  have hnumber : (Json.object number).get? field = some (.number n) := by
    rw [Json.get?, lookup_insertMember, if_pos rfl]
  have htext : (Json.object text).get? field = some (.string n.render) := by
    rw [Json.get?, lookup_insertMember, if_pos rfl, Json.text_number]
  have hother {key : String} (hk : key ≠ field) :
      (Json.object number).get? key = (Json.object text).get? key := by
    rw [Json.get?, Json.get?, lookup_insertMember, lookup_insertMember, if_neg hk, if_neg hk]
  rcases List.mem_pair.mp hf with rfl | rfl
  · apply ofJson_congr
    · exact readAlgorithm_congr (hother (by decide))
    · exact fun _ => readField_number hnumber htext n.readUInt32_render
    · exact fun _ => readField_congr (hother (by decide))
  · apply ofJson_congr
    · exact readAlgorithm_congr (hother (by decide))
    · exact fun _ => readField_congr (hother (by decide))
    · exact fun _ => readField_number hnumber htext n.read?_render

/-- A precision one past the range of its type, and a delta that is the double nearest to one
third, whose text has sixteen digits. -/
theorem Options.ofJson_number_text_at_edges :
    let members : List (String × Json) := [("alg", .string " lll ")]
    let third : Magnitude := ⟨1021 * blockSize + blockSize / 3, by decide⟩
    let precision (value : Json) := ofJson (.object (insertMember "precision" value members))
    let delta (value : Json) := ofJson (.object (insertMember "delta" value members))
    precision (.number (.integer 4294967296)) = .error (.invalidField "precision" "4294967296") ∧
      precision (.string "4294967296") = .error (.invalidField "precision" "4294967296") ∧
      delta (.number (.double false third)) = .ok ⟨.lll, 64, .finite false third⟩ ∧
      delta (.string "0.3333333333333333") = .ok ⟨.lll, 64, .finite false third⟩ := by
  intro members third precision delta
  have hprecision := ofJson_number_text members (.integer 4294967296) "precision" List.mem_cons_self
  have hdelta := ofJson_number_text members (.double false third) "delta"
    (List.mem_cons_of_mem _ List.mem_cons_self)
  have htext : (Json.number (.double false third)).text = "0.3333333333333333" := by decide +kernel
  rw [htext] at hdelta
  have hrefused : precision (.string "4294967296") =
      .error (.invalidField "precision" "4294967296") := by decide +kernel
  have hread : delta (.string "0.3333333333333333") = .ok ⟨.lll, 64, .finite false third⟩ := by
    decide +kernel
  exact ⟨hprecision.trans hrefused, hrefused, hdelta.trans hread, hread⟩

end MonicFactor
