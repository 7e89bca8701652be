import CoinTool.Common.Utils.Config

/-!
# Loads that fail

A load merges the entries of a file while the iterator reads them.  It has nothing to take back: at a
malformed line the entries before it stay in both maps.
-/

namespace CoinTool

open Framework

/-- The lines of a file at which `config_file_iterator` stops: an entry, or one that it cannot read. -/
inductive ConfigLine where
  | entry (key value : Str)
  | malformed
  deriving DecidableEq, Repr

def iterated : List ConfigLine → ConfigFile
  | [] => ⟨[], false⟩
  | .malformed :: _ => ⟨[], true⟩
  | .entry key value :: rest =>
      let file := iterated rest
      { file with entries := (key, value) :: file.entries }

def systemOf (home : Option Str) (lines : Str → Option (List ConfigLine)) : FileSystem :=
  ⟨home, fun path => (lines path).map iterated⟩

theorem iterated_malformed {lines : List ConfigLine} (h : (iterated lines).malformed = true) :
    ∃ after, lines =
      ((iterated lines).entries.map fun e => .entry e.1 e.2) ++ .malformed :: after := by
  induction lines with
  | nil => cases h
  | cons line rest ih =>
      cases line with
      | malformed => exact ⟨rest, rfl⟩
      | entry key value =>
          obtain ⟨after, hrest⟩ := ih h
          exact ⟨after, congrArg (.entry key value :: ·) hrest⟩

theorem loadEntries_eq_iff (s : Settings) (entries : List (Str × Str)) :
    entries.foldl loadEntry s = s ↔ entries = [] := by
  constructor
  · intro heq
    cases entries with
    | nil => rfl
    | cons entry entries =>
        -- the multi map has one more value at the key of the first entry
        have hmulti := congrArg (fun t => t.mapMultiArgs.lookup (settingOf entry).1) heq
        simp only [loadEntries_mapMultiArgs, KeyMap.foldl_pushBack, List.append_right_eq_self,
          List.map_cons, valuesOf_cons, if_true, List.singleton_append] at hmulti
        exact absurd hmulti (List.cons_ne_nil _ _)
  · rintro rfl
    rfl

/-- A load that does not return true either found no file and changed nothing, or it threw at the
first malformed line: then both maps hold the entries before that line, merged in file order, and
they are as before only when there is none. -/
theorem readCurrentFile_failure (home : Option Str) (lines : Str → Option (List ConfigLine))
    (s t : Settings) (strfile : Str) (result : LoadResult)
    (hrun : readCurrentFile (systemOf home lines) s strfile = (result, t)) (hfail : result ≠ .ok) :
    (lines strfile = none ∧ t = s ∧
      result = .failed ("Open file <".toList ++ strfile ++ "> failed!".toList)) ∨
    ∃ entries after,
      lines strfile = some ((entries.map fun e => .entry e.1 e.2) ++ .malformed :: after) ∧
      result = .exception ∧
      (∀ k, t.mapMultiArgs.lookup k =
        s.mapMultiArgs.lookup k ++ valuesOf k (entries.map settingOf)) ∧
      (∀ k, t.mapArgs k = (s.mapArgs k).or (valuesOf k (entries.map settingOf)).head?) ∧
      (t = s ↔ entries = []) := by
  rw [readCurrentFile, loadStream, systemOf] at hrun
  cases hfile : lines strfile with
  | none =>
      left
      simp only [hfile, Option.map_none, Prod.mk.injEq] at hrun
      exact ⟨rfl, hrun.2.symm, hrun.1.symm⟩
  | some content =>
      right
      simp only [hfile, Option.map_some, Prod.mk.injEq] at hrun
      obtain ⟨hresult, rfl⟩ := hrun
      have hmalformed : (iterated content).malformed = true := by
        by_contra hread
        rw [if_neg hread] at hresult
        exact hfail hresult.symm
      rw [if_pos hmalformed] at hresult
      obtain ⟨after, hlines⟩ := iterated_malformed hmalformed
      refine ⟨(iterated content).entries, after, congrArg some hlines, hresult.symm, ?_, ?_,
        loadEntries_eq_iff s _⟩
      · intro k
        rw [loadEntries_mapMultiArgs, KeyMap.foldl_pushBack]
      · intro k
        rw [loadEntries_mapArgs, KeyMap.foldl_assignIfNew]

def brokenFile (path : Str) : Option (List ConfigLine) :=
  if path = "a.conf".toList then some [.entry "debug".toList "1".toList, .malformed] else none

theorem readCurrentFile_failure_sample :
    ∃ t, readCurrentFile (systemOf none brokenFile) Settings.empty "a.conf".toList =
        (.exception, t) ∧ t ≠ Settings.empty := by
  refine ⟨_, rfl, ?_⟩
  have hcases := readCurrentFile_failure none brokenFile Settings.empty _ "a.conf".toList
    .exception rfl (by decide)
  rcases hcases with ⟨hnone, _⟩ | ⟨entries, after, hlines, _, _, _, hsame⟩
  · exact absurd hnone (by decide)
  · rw [Ne, hsame]
    rintro rfl
    exact absurd (congrArg List.head? (Option.some.inj hlines)) (by simp)

/-- The entry before the malformed line stays. -/
theorem readCurrentFile_not_atomic :
    ¬ ∀ (home : Option Str) (lines : Str → Option (List ConfigLine)) (s : Settings) (strfile : Str),
      (readCurrentFile (systemOf home lines) s strfile).1 ≠ .ok →
        (readCurrentFile (systemOf home lines) s strfile).2 = s := by
  intro h
  have hsame := h none brokenFile Settings.empty "a.conf".toList (by decide)
  have hdebug := congrArg (fun t => t.mapMultiArgs.lookup "-debug".toList) hsame
  exact absurd hdebug (by decide)

end CoinTool
