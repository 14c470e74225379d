import Mathlib.Data.List.Induction
import Mathlib.Data.List.Nodup
import MonicFactor.Json.Value

/-! Members of an object: what is found among them when they are put in one after another. As long
as no key is given twice their order does not matter. -/

namespace MonicFactor

theorem lookup_cons_of_ne {key k : String} (h : key ≠ k) (value : Json)
    (members : List (String × Json)) :
    ((k, value) :: members).lookup key = members.lookup key := by
  rw [List.lookup_cons, beq_false_of_ne h]

theorem lookup_insertMember (key other : String) (value : Json) (members : List (String × Json)) :
    (insertMember key value members).lookup other =
      if other = key then some value else members.lookup other := by
  induction members with
  | nil =>
    by_cases h : other = key
    · rw [h, if_pos rfl, insertMember, List.lookup_cons_self]
    · rw [if_neg h, insertMember, lookup_cons_of_ne h]
  | cons member rest ih =>
    obtain ⟨k, v⟩ := member
    by_cases hlt : key < k
    · rw [insertMember, if_pos hlt]
      by_cases h : other = key
      · rw [h, if_pos rfl, List.lookup_cons_self]
      · rw [if_neg h, lookup_cons_of_ne h]
    by_cases heq : key = k
    · rw [insertMember, if_neg hlt, if_pos heq, ← heq]
      by_cases h : other = key
      · rw [h, if_pos rfl, List.lookup_cons_self]
      · rw [if_neg h, lookup_cons_of_ne h, lookup_cons_of_ne h]
    rw [insertMember, if_neg hlt, if_neg heq]
    by_cases hk : other = k
    · have h : other ≠ key := fun h => heq (h.symm.trans hk)
      rw [if_neg h, hk, List.lookup_cons_self, List.lookup_cons_self]
    · rw [lookup_cons_of_ne hk, lookup_cons_of_ne hk, ih]

/-- The object that comes of members in the order in which they are written. -/
def Json.ofWritten (written : List (String × Json)) : Json :=
  .object (written.foldl (fun members member => insertMember member.1 member.2 members) [])

/-- Of members with one key the last is found. -/
theorem Json.get?_ofWritten (written : List (String × Json)) (key : String) :
    (ofWritten written).get? key = written.reverse.lookup key := by
  rw [ofWritten, get?]
  induction written using List.reverseRecOn with
  | nil => rfl
  | append_singleton written member ih =>
    rw [List.foldl_append, List.foldl_cons, List.foldl_nil, lookup_insertMember, ih,
      List.reverse_append, List.reverse_singleton, List.singleton_append]
    by_cases h : key = member.1
    · rw [if_pos h, h, List.lookup_cons_self]
    · rw [if_neg h, lookup_cons_of_ne h]

theorem lookup_eq_some_iff {members : List (String × Json)} {key : String}
    (h : (members.map Prod.fst).count key ≤ 1) {value : Json} :
    members.lookup key = some value ↔ (key, value) ∈ members := by
  induction members with
  | nil => simp
  | cons member rest ih =>
    obtain ⟨k, v⟩ := member
    rw [List.map_cons, List.count_cons] at h
    by_cases hk : key = k
    · subst hk
      have hrest : ∀ w, (key, w) ∉ rest := by
        intro w hw
        have hmem : key ∈ rest.map Prod.fst := List.mem_map.mpr ⟨_, hw, rfl⟩
        have hpos := List.count_pos_iff.mpr hmem
        rw [if_pos (beq_self_eq_true key)] at h
        omega
      simp [hrest, eq_comm]
    · have hcount : (rest.map Prod.fst).count key ≤ 1 := by omega
      rw [lookup_cons_of_ne hk, ih hcount]
      simp [hk]

/-- Members in another order, with others among them whose keys are not the one looked for. -/
theorem Json.get?_ofWritten_perm {written others written' : List (String × Json)} {key : String}
    (hd : (written.map Prod.fst).Nodup) (hp : written'.Perm (written ++ others))
    (ho : ∀ member ∈ others, member.1 ≠ key) :
    (ofWritten written').get? key = (ofWritten written).get? key := by
  have hcount : (written.map Prod.fst).count key ≤ 1 := List.nodup_iff_count_le_one.mp hd key
  have hnone : (others.map Prod.fst).count key = 0 := by
    rw [List.count_eq_zero]
    intro hm
    obtain ⟨member, hmem, hk⟩ := List.mem_map.mp hm
    exact ho member hmem hk
  have hcount' : (written'.map Prod.fst).count key ≤ 1 := by
    rw [(hp.map Prod.fst).count_eq, List.map_append, List.count_append, hnone]
    exact hcount
  rw [get?_ofWritten, get?_ofWritten]
  have hrev {members : List (String × Json)} (h : (members.map Prod.fst).count key ≤ 1) :
      (members.reverse.map Prod.fst).count key ≤ 1 := by
    rwa [List.map_reverse, List.count_reverse]
  refine Option.ext fun value => ?_
  rw [lookup_eq_some_iff (hrev hcount'), lookup_eq_some_iff (hrev hcount), List.mem_reverse,
    List.mem_reverse, hp.mem_iff, List.mem_append, or_iff_left fun hm => ho _ hm rfl]

/-- The same members in another order, and among them others that have none of these keys. -/
def Rearranged (keys : List String) (written written' : List (String × Json)) : Prop :=
  (written.map Prod.fst).Nodup ∧ ∃ others, written'.Perm (written ++ others) ∧
    ∀ member ∈ others, member.1 ∉ keys

theorem Rearranged.get?_eq {keys : List String} {written written' : List (String × Json)}
    (h : Rearranged keys written written') {key : String} (hk : key ∈ keys) :
    (Json.ofWritten written').get? key = (Json.ofWritten written).get? key := by
  obtain ⟨hd, others, hp, ho⟩ := h
  exact Json.get?_ofWritten_perm hd hp fun member hm he => ho member hm (he ▸ hk)

end MonicFactor
