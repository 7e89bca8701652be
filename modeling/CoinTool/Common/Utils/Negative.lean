import CoinTool.Common.Utils.Config

/-!
# Settings of the form `-noX`

`ToolsInterpretNegativeSetting` takes one `no` from a key and negates the value once.  Its result is
not looked at again, so what it stores may still begin with `-no`.
-/

namespace CoinTool

open Framework

/-- A key `-noX` where `X` is not empty. -/
def NegativeForm (strKey : Str) : Prop := ∃ name, name ≠ [] ∧ strKey = "-no".toList ++ name

def negated (strValue : Str) : Str :=
  if toolsInterpretBool strValue then "0".toList else "1".toList

def repeatedNo (count : Nat) : Str := (List.replicate count "no".toList).flatten

theorem toolsInterpretBool_negated (strValue : Str) :
    toolsInterpretBool (negated strValue) = !toolsInterpretBool strValue := by
  rw [negated]
  cases toolsInterpretBool strValue <;> decide

theorem toolsInterpretNegativeSetting_negative (name strValue : Str) (hname : name ≠ []) :
    toolsInterpretNegativeSetting ("-no".toList ++ name) strValue =
      ('-' :: name, negated strValue) := by
  have hlength : 0 < name.length := List.length_pos_iff.mpr hname
  rw [toolsInterpretNegativeSetting, if_pos]
  · rfl
  · refine ⟨?_, rfl, rfl, rfl⟩
    rw [List.length_append]
    exact Nat.lt_add_of_pos_right hlength

theorem toolsInterpretNegativeSetting_other (strKey strValue : Str) (h : ¬ NegativeForm strKey) :
    toolsInterpretNegativeSetting strKey strValue = (strKey, strValue) := by
  rw [toolsInterpretNegativeSetting, if_neg]
  intro hform
  obtain ⟨hlength, hdash, hn, ho⟩ := hform
  apply h
  rcases strKey with _ | ⟨a, _ | ⟨b, _ | ⟨c, name⟩⟩⟩
  · cases hdash
  · cases hn
  · cases ho
  · cases hdash
    cases hn
    cases ho
    refine ⟨name, ?_, rfl⟩
    rintro rfl
    exact absurd hlength (Nat.lt_irrefl 3)

theorem negativeForm_cons_iff (name : Str) :
    NegativeForm ('-' :: name) ↔ ∃ rest, rest ≠ [] ∧ name = "no".toList ++ rest := by
  constructor
  · intro h
    obtain ⟨rest, hrest, hname⟩ := h
    exact ⟨rest, hrest, List.tail_eq_of_cons_eq hname⟩
  · intro h
    obtain ⟨rest, hrest, rfl⟩ := h
    exact ⟨rest, hrest, rfl⟩

theorem negativeForm_result_iff (strKey strValue : Str) :
    NegativeForm (toolsInterpretNegativeSetting strKey strValue).1 ↔
      ∃ name, name ≠ [] ∧ strKey = "-nono".toList ++ name := by
  by_cases h : NegativeForm strKey
  · obtain ⟨name, hname, rfl⟩ := h
    rw [toolsInterpretNegativeSetting_negative name strValue hname, negativeForm_cons_iff]
    constructor
    · intro hrest
      obtain ⟨rest, hne, rfl⟩ := hrest
      exact ⟨rest, hne, rfl⟩
    · intro hrest
      obtain ⟨rest, hne, hkey⟩ := hrest
      exact ⟨rest, hne, List.append_cancel_left hkey⟩
  · rw [toolsInterpretNegativeSetting_other strKey strValue h]
    refine iff_of_false h ?_
    intro hname
    obtain ⟨name, -, rfl⟩ := hname
    exact h ⟨"no".toList ++ name, by simp, rfl⟩

theorem toolsInterpretNegativeSetting_again_iff (strKey strValue : Str) :
    toolsInterpretNegativeSetting (toolsInterpretNegativeSetting strKey strValue).1
        (toolsInterpretNegativeSetting strKey strValue).2 =
      toolsInterpretNegativeSetting strKey strValue ↔
    ¬ NegativeForm (toolsInterpretNegativeSetting strKey strValue).1 := by
  generalize toolsInterpretNegativeSetting strKey strValue = result
  constructor
  · intro hsame hform
    obtain ⟨name, hname, hkey⟩ := hform
    rw [hkey, toolsInterpretNegativeSetting_negative name result.2 hname] at hsame
    have hlength := congrArg (fun r => r.1.length) hsame
    have hno : "-no".toList.length = 3 := rfl
    simp only [hkey, List.length_append, List.length_cons, hno] at hlength
    omega
  · exact toolsInterpretNegativeSetting_other result.1 result.2

theorem settingOf_repeatedNo (count : Nat) (name strValue : Str) (hname : name ≠ []) :
    settingOf (repeatedNo (count + 1) ++ name, strValue) =
      ('-' :: (repeatedNo count ++ name), negated strValue) := by
  have hkey : '-' :: (repeatedNo (count + 1) ++ name) =
      "-no".toList ++ (repeatedNo count ++ name) := by
    rw [repeatedNo, List.replicate_succ, List.flatten_cons, List.append_assoc]
    rfl
  rw [settingOf, hkey]
  apply toolsInterpretNegativeSetting_negative
  rw [Ne, List.append_eq_nil_iff]
  exact fun h => hname h.2

def Load.lines (l : Load) : List (Str × Str) :=
  match l.fs.stream l.path with
  | none => []
  | some file => file.entries

def readLines (loads : List Load) : List (Str × Str) := loads.flatMap Load.lines

def runLoads (s : Settings) (loads : List Load) : Settings :=
  loads.foldl (fun s l => (l.run s).2) s

theorem Load.run_settings (l : Load) (s : Settings) :
    (l.run s).2 = l.lines.foldl loadEntry s := by
  rw [Load.run_eq, loadStream, Load.lines]
  cases l.fs.stream l.path <;> rfl

theorem runLoads_eq (s : Settings) (loads : List Load) :
    runLoads s loads = (readLines loads).foldl loadEntry s := by
  induction loads generalizing s with
  | nil => rfl
  | cons l loads ih =>
      have hrest : runLoads s (l :: loads) = runLoads (l.run s).2 loads := rfl
      rw [hrest, ih, Load.run_settings, readLines, readLines, List.flatMap_cons,
        List.foldl_append]

theorem exists_settingOf_iff (lines : List (Str × Str)) (k : Str) :
    (∃ e ∈ lines.map settingOf, e.1 = k) ↔ ∃ line ∈ lines, (settingOf line).1 = k := by
  simp only [List.mem_map, exists_exists_and_eq_and]

theorem runLoads_mapArgs_iff (s : Settings) (loads : List Load) (k : Str) :
    (runLoads s loads).mapArgs.count k = true ↔
      s.mapArgs.count k = true ∨ ∃ line ∈ readLines loads, (settingOf line).1 = k := by
  rw [runLoads_eq, loadEntries_mapArgs,
    KeyMap.count_foldl_iff _ k (fun m e => KeyMap.count_assignIfNew m e.1 k e.2),
    exists_settingOf_iff]

theorem runLoads_mapMultiArgs_iff (s : Settings) (loads : List Load) (k : Str) :
    (runLoads s loads).mapMultiArgs.count k = true ↔
      s.mapMultiArgs.count k = true ∨ ∃ line ∈ readLines loads, (settingOf line).1 = k := by
  rw [runLoads_eq, loadEntries_mapMultiArgs,
    KeyMap.count_foldl_iff _ k (fun m e => KeyMap.count_pushBack m e.1 k e.2),
    exists_settingOf_iff]

theorem readLines_stored {loads : List Load} {line : Str × Str} (hline : line ∈ readLines loads)
    (s : Settings) :
    (runLoads s loads).mapArgs.count (settingOf line).1 = true ∧
      (settingOf line).2 ∈ (runLoads s loads).mapMultiArgs.lookup (settingOf line).1 := by
  constructor
  · rw [runLoads_mapArgs_iff]
    exact Or.inr ⟨line, hline, rfl⟩
  · rw [runLoads_eq, loadEntries_mapMultiArgs, KeyMap.foldl_pushBack]
    apply List.mem_append_right
    rw [mem_valuesOf_iff]
    exact List.mem_map_of_mem hline

theorem settingOf_negative_iff (line : Str × Str) (name : Str) (hname : name ≠ []) :
    (settingOf line).1 = "-no".toList ++ name ↔ line.1 = "nono".toList ++ name := by
  obtain ⟨key, value⟩ := line
  by_cases h : ∃ rest, rest ≠ [] ∧ key = "no".toList ++ rest
  · obtain ⟨rest, hrest, rfl⟩ := h
    have hsetting : settingOf ("no".toList ++ rest, value) = ('-' :: rest, negated value) :=
      toolsInterpretNegativeSetting_negative rest value hrest
    rw [hsetting]
    constructor
    · intro hkey
      rw [List.tail_eq_of_cons_eq hkey]
      rfl
    · intro hkey
      have htail : rest = "no".toList ++ name := List.append_cancel_left hkey
      rw [htail]
      rfl
  · have hsetting : settingOf (key, value) = ('-' :: key, value) := by
      apply toolsInterpretNegativeSetting_other
      rw [negativeForm_cons_iff]
      exact h
    rw [hsetting]
    refine iff_of_false ?_ ?_
    · intro hkey
      exact h ⟨name, hname, List.tail_eq_of_cons_eq hkey⟩
    · intro hkey
      exact h ⟨"no".toList ++ name, by simp, hkey⟩

/-- One application takes off exactly one `no`; the result is left alone by another application
unless the key had two.  What a run of loads stores under a key `-noX` are the lines `nonoX`. -/
theorem toolsInterpretNegativeSetting_once :
    (∀ strKey strValue,
      (toolsInterpretNegativeSetting (toolsInterpretNegativeSetting strKey strValue).1
          (toolsInterpretNegativeSetting strKey strValue).2 =
        toolsInterpretNegativeSetting strKey strValue ↔
      ¬ ∃ name, name ≠ [] ∧ strKey = "-nono".toList ++ name)) ∧
    (∀ s loads name, name ≠ [] →
      ((runLoads s loads).mapArgs.count ("-no".toList ++ name) = true ↔
        s.mapArgs.count ("-no".toList ++ name) = true ∨
          ∃ line ∈ readLines loads, line.1 = "nono".toList ++ name) ∧
      ((runLoads s loads).mapMultiArgs.count ("-no".toList ++ name) = true ↔
        s.mapMultiArgs.count ("-no".toList ++ name) = true ∨
          ∃ line ∈ readLines loads, line.1 = "nono".toList ++ name)) ∧
    (∀ s loads, ∀ line ∈ readLines loads,
      (runLoads s loads).mapArgs.count (settingOf line).1 = true ∧
      (settingOf line).2 ∈ (runLoads s loads).mapMultiArgs.lookup (settingOf line).1) ∧
    ∀ count name strValue, name ≠ [] →
      settingOf (repeatedNo (count + 1) ++ name, strValue) =
        ('-' :: (repeatedNo count ++ name), negated strValue) ∧
      toolsInterpretBool (negated strValue) = !toolsInterpretBool strValue := by
  refine ⟨?_, ?_, ?_, ?_⟩
  · intro strKey strValue
    rw [toolsInterpretNegativeSetting_again_iff, negativeForm_result_iff]
  · intro s loads name hname
    rw [runLoads_mapArgs_iff, runLoads_mapMultiArgs_iff]
    simp only [settingOf_negative_iff _ name hname, and_self]
  · intro s loads line hline
    exact readLines_stored hline s
  · intro count name strValue hname
    exact ⟨settingOf_repeatedNo count name strValue hname, toolsInterpretBool_negated strValue⟩

/-- `-nonodebug` becomes `-nodebug`, which is of the form that is rewritten. -/
theorem toolsInterpretNegativeSetting_not_idempotent :
    ¬ ∀ strKey strValue,
      toolsInterpretNegativeSetting (toolsInterpretNegativeSetting strKey strValue).1
          (toolsInterpretNegativeSetting strKey strValue).2 =
        toolsInterpretNegativeSetting strKey strValue := by
  intro h
  exact absurd (h "-nonodebug".toList "1".toList) (by decide)

end CoinTool
