import Mathlib.Data.List.Lex
import Mathlib.Order.Lattice
import CoinTool.Framework.KeyMap

/-!
# Ordered maps

`std::map` as the list of its entries in ascending order of their keys.  What it stores is the keyed
map of its lookups; the order is what an iteration sees.
-/

namespace CoinTool.Framework

variable {κ α : Type*}

structure OrderedMap (κ α : Type*) [LT κ] where
  entries : List (κ × α)
  sorted : entries.Pairwise fun a b => a.1 < b.1

namespace OrderedMap

variable [LinearOrder κ]

def empty : OrderedMap κ α := ⟨[], List.Pairwise.nil⟩

/-- Insertion keeps an entry that is there. -/
def insertEntry (k : κ) (v : α) : List (κ × α) → List (κ × α)
  | [] => [(k, v)]
  | e :: entries =>
      if k < e.1 then (k, v) :: e :: entries
      else if k = e.1 then e :: entries
      else e :: insertEntry k v entries

theorem mem_insertEntry {k : κ} {v : α} {entries : List (κ × α)} {e : κ × α}
    (h : e ∈ insertEntry k v entries) : e = (k, v) ∨ e ∈ entries := by
  induction entries with
  | nil => exact Or.inl (List.mem_singleton.mp h)
  | cons head entries ih =>
      rw [insertEntry] at h
      split at h
      · exact List.mem_cons.mp h
      · split at h
        · exact Or.inr h
        · rcases List.mem_cons.mp h with rfl | hrest
          · exact Or.inr List.mem_cons_self
          · exact (ih hrest).imp_right (List.mem_cons_of_mem _)

theorem insertEntry_sorted (k : κ) (v : α) {entries : List (κ × α)}
    (h : entries.Pairwise fun a b => a.1 < b.1) :
    (insertEntry k v entries).Pairwise fun a b => a.1 < b.1 := by
  induction entries with
  | nil => exact List.pairwise_singleton _ _
  | cons head entries ih =>
      obtain ⟨hhead, hrest⟩ := List.pairwise_cons.mp h
      rw [insertEntry]
      split
      · rename_i hlt
        refine List.pairwise_cons.mpr ⟨?_, h⟩
        intro e he
        rcases List.mem_cons.mp he with rfl | he
        · exact hlt
        · exact hlt.trans (hhead e he)
      · split
        · exact h
        · rename_i hnot hne
          refine List.pairwise_cons.mpr ⟨?_, ih hrest⟩
          intro e he
          rcases mem_insertEntry he with rfl | he
          · exact lt_of_le_of_ne (not_lt.mp hnot) (Ne.symm hne)
          · exact hhead e he

def insert (m : OrderedMap κ α) (k : κ) (v : α) : OrderedMap κ α :=
  ⟨insertEntry k v m.entries, insertEntry_sorted k v m.sorted⟩

def find (m : OrderedMap κ α) : KeyMap κ α := fun k => m.entries.lookup k

def keys (m : OrderedMap κ α) : List κ := m.entries.map Prod.fst

theorem keys_sorted (m : OrderedMap κ α) : m.keys.Pairwise (· < ·) :=
  List.pairwise_map.mpr m.sorted

theorem lookup_cons (k : κ) (e : κ × α) (entries : List (κ × α)) :
    (e :: entries).lookup k = if k = e.1 then some e.2 else entries.lookup k := by
  obtain ⟨key, value⟩ := e
  rw [List.lookup_cons]
  by_cases hk : k = key
  · simp [hk]
  · rw [beq_eq_false_iff_ne.mpr hk, if_neg hk]

theorem lookup_eq_none {k : κ} {entries : List (κ × α)} (h : ∀ e ∈ entries, e.1 ≠ k) :
    entries.lookup k = none := by
  rw [List.lookup_eq_none_iff]
  intro e he
  simpa using Ne.symm (h e he)

theorem lookup_insertEntry (k k' : κ) (v : α) {entries : List (κ × α)}
    (h : entries.Pairwise fun a b => a.1 < b.1) :
    (insertEntry k v entries).lookup k' =
      (entries.lookup k').or (if k' = k then some v else none) := by
  induction entries with
  | nil => by_cases hk : k' = k <;> simp [insertEntry, lookup_cons, hk]
  | cons head entries ih =>
      obtain ⟨hhead, hrest⟩ := List.pairwise_cons.mp h
      rw [insertEntry]
      split
      · rename_i hlt
        by_cases hk : k' = k
        · -- no entry has the key, since all keys are above it
          have hnone : (head :: entries).lookup k' = none := by
            apply lookup_eq_none
            intro e he
            rw [hk]
            rcases List.mem_cons.mp he with rfl | he
            · exact hlt.ne'
            · exact (hlt.trans (hhead e he)).ne'
          rw [hnone]
          simp [lookup_cons, hk]
        · simp [lookup_cons, hk]
      · split
        · rename_i heq
          by_cases hk : k' = k
          · simp [lookup_cons, hk, heq]
          · simp [hk]
        · by_cases hk : k' = head.1
          · simp [lookup_cons, hk]
          · simp [lookup_cons, hk, ih hrest]

theorem find_insert (m : OrderedMap κ α) (k : κ) (v : α) :
    (m.insert k v).find = m.find.assignIfNew k v := by
  funext k'
  rw [KeyMap.assignIfNew_apply]
  exact lookup_insertEntry k k' v m.sorted

def insertAll (m : OrderedMap κ α) (table : List (κ × α)) : OrderedMap κ α :=
  table.foldl (fun m e => m.insert e.1 e.2) m

theorem find_insertAll (table : List (κ × α)) (m : OrderedMap κ α) (k : κ) :
    (m.insertAll table).find k = (m.find k).or (valuesOf k table).head? := by
  have hhom : (m.insertAll table).find =
      table.foldl (fun m e => m.assignIfNew e.1 e.2) m.find := by
    refine (List.foldl_hom find ?_).symm
    intro m e
    exact (find_insert m e.1 e.2).symm
  rw [hhom, KeyMap.foldl_assignIfNew]

theorem valuesOf_of_nodup {table : List (κ × α)} (h : (table.map Prod.fst).Nodup) {k : κ} {v : α}
    (hmem : (k, v) ∈ table) : valuesOf k table = [v] := by
  induction table with
  | nil => cases hmem
  | cons e table ih =>
      rw [List.map_cons, List.nodup_cons] at h
      rw [valuesOf_cons]
      rcases List.mem_cons.mp hmem with rfl | hmem
      · have hrest : valuesOf k table = [] := by
          rw [List.eq_nil_iff_forall_not_mem]
          intro w hw
          exact h.1 (List.mem_map.mpr ⟨(k, w), (mem_valuesOf_iff k w table).mp hw, rfl⟩)
        rw [if_pos rfl, hrest, List.append_nil]
      · have hne : k ≠ e.1 := by
          rintro rfl
          exact h.1 (List.mem_map.mpr ⟨_, hmem, rfl⟩)
        rw [if_neg hne, ih h.2 hmem, List.nil_append]

theorem find_empty_insertAll {table : List (κ × α)} (h : (table.map Prod.fst).Nodup) (k : κ)
    (v : α) : ((empty : OrderedMap κ α).insertAll table).find k = some v ↔ (k, v) ∈ table := by
  have hempty : (empty : OrderedMap κ α).find k = none := rfl
  rw [find_insertAll, hempty, Option.none_or]
  constructor
  · intro hhead
    exact (mem_valuesOf_iff k v table).mp (List.mem_of_head? hhead)
  · intro hmem
    rw [valuesOf_of_nodup h hmem]
    rfl

theorem mem_keys_iff (m : OrderedMap κ α) (k : κ) : k ∈ m.keys ↔ ∃ v, m.find k = some v := by
  constructor
  · intro hk
    by_contra hnone
    push Not at hnone
    have hlookup : m.entries.lookup k = none := Option.eq_none_iff_forall_ne_some.mpr hnone
    obtain ⟨e, he, rfl⟩ := List.mem_map.mp hk
    have hne := List.lookup_eq_none_iff.mp hlookup e he
    simp at hne
  · rintro ⟨v, hv⟩
    obtain ⟨before, after, hsplit, -⟩ := List.lookup_eq_some_iff.mp hv
    rw [keys, hsplit]
    simp

end OrderedMap

end CoinTool.Framework
