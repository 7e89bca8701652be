import CoinTool.Framework.KeyMap
import CoinTool.Common.Utils.Text

/-!
# Configuration files

`mapArgs` keeps the first value of a key and `mapMultiArgs` all of them.  Both are filled by the
same loop over the entries of a file, after `-noX` has been turned into `-X`.
-/

namespace CoinTool

open Framework

structure Settings where
  mapArgs : KeyMap Str Str
  mapMultiArgs : KeyMap Str (List Str)

def Settings.empty : Settings := ⟨KeyMap.empty, KeyMap.empty⟩

/-- What a consumer visits that tests `mapArgs.count(k)` and then iterates `mapMultiArgs[k]`. -/
def Settings.visited (s : Settings) (k : Str) : List Str :=
  if s.mapArgs.count k then s.mapMultiArgs.lookup k else []

/-- `p / q` of Boost paths. -/
def pathAppend (p q : Str) : Str :=
  if q = [] then p
  else if p = [] ∨ p.getLast? = some '/' ∨ q.head? = some '/' then p ++ q
  else p ++ '/' :: q

/-- The Unix branch; `home` is what `getenv("HOME")` returns. -/
def getCoinToolDir (home : Option Str) : Str :=
  let pathRet := match home with
    | none => "/".toList
    | some pszHome => if pszHome.length = 0 then "/".toList else pszHome
  pathAppend pathRet ".cointools".toList

def setFilePath (home : Option Str) (filename : Str) (s : Settings) : Settings :=
  let mapArgs := s.mapArgs.assign "-datadir".toList (getCoinToolDir home)
  { s with mapArgs := mapArgs.assign "-conf".toList (pathAppend (getCoinToolDir home) filename) }

def toolsInterpretBool (strValue : Str) : Bool :=
  if strValue = [] then true else atoi strValue != 0

/-- Turn `-noX` into `-X=0`. -/
def toolsInterpretNegativeSetting (strKey strValue : Str) : Str × Str :=
  if strKey.length > 3 ∧ strKey[0]? = some '-' ∧ strKey[1]? = some 'n' ∧ strKey[2]? = some 'o' then
    ('-' :: strKey.drop 3, if toolsInterpretBool strValue then "0".toList else "1".toList)
  else (strKey, strValue)

/-- A file as `config_file_iterator` reads it: its entries in file order, each a `string_key` with
its `value[0]`, and whether the iterator then throws at a malformed line. -/
structure ConfigFile where
  entries : List (Str × Str)
  malformed : Bool

/-- The part of the system a load reads: the home directory and the files that open. -/
structure FileSystem where
  home : Option Str
  stream : Str → Option ConfigFile

def getFile (fs : FileSystem) (filename : Str) : Str :=
  if filename.head? = some '/' then filename
  else pathAppend (getCoinToolDir fs.home) filename

inductive LoadResult where
  | ok
  | failed (message : Str)
  | exception
  deriving DecidableEq, Repr

def settingOf (entry : Str × Str) : Str × Str :=
  toolsInterpretNegativeSetting ('-' :: entry.1) entry.2

def loadEntry (s : Settings) (entry : Str × Str) : Settings :=
  let setting := settingOf entry
  { mapArgs := if s.mapArgs.count setting.1 then s.mapArgs
      else s.mapArgs.assign setting.1 setting.2
    mapMultiArgs := s.mapMultiArgs.pushBack setting.1 setting.2 }

def loadStream (fs : FileSystem) (s : Settings) (path : Str) : LoadResult × Settings :=
  match fs.stream path with
  | none => (.failed ("Open file <".toList ++ path ++ "> failed!".toList), s)
  | some file => (if file.malformed then .exception else .ok, file.entries.foldl loadEntry s)

def readFile (fs : FileSystem) (s : Settings) (strfile : Str) : LoadResult × Settings :=
  loadStream fs s (getFile fs strfile)

def readCurrentFile (fs : FileSystem) (s : Settings) (strfile : Str) : LoadResult × Settings :=
  loadStream fs s strfile

theorem readCurrentFile_ok {fs : FileSystem} {strfile : Str} {file : ConfigFile} (s : Settings)
    (hfile : fs.stream strfile = some file) (hwell : file.malformed = false) :
    readCurrentFile fs s strfile = (.ok, file.entries.foldl loadEntry s) := by
  rw [readCurrentFile, loadStream, hfile]
  simp only [hwell, Bool.false_eq_true, if_false]

structure Load where
  fs : FileSystem
  current : Bool
  strfile : Str

def Load.path (l : Load) : Str := if l.current then l.strfile else getFile l.fs l.strfile

def Load.run (l : Load) (s : Settings) : LoadResult × Settings :=
  if l.current then readCurrentFile l.fs s l.strfile else readFile l.fs s l.strfile

def Load.settings (l : Load) : List (Str × Str) :=
  match l.fs.stream l.path with
  | none => []
  | some file => file.entries.map settingOf

def loadAll : Settings → List Load → Option Settings
  | s, [] => some s
  | s, l :: loads =>
      match l.run s with
      | (.ok, s') => loadAll s' loads
      | _ => none

def loadedSettings (loads : List Load) : List (Str × Str) := loads.flatMap Load.settings

/-- The maps hold what was preset and the entries of `history`: the first value of every key that
was not preset, and all values of every key. -/
structure Merged (preset : KeyMap Str Str) (history : List (Str × Str)) (s : Settings) : Prop where
  args : ∀ k, s.mapArgs k = (preset k).or (valuesOf k history).head?
  multi : ∀ k, s.mapMultiArgs.lookup k = valuesOf k history

theorem loadEntries_mapArgs (entries : List (Str × Str)) (s : Settings) :
    (entries.foldl loadEntry s).mapArgs =
      (entries.map settingOf).foldl (fun m e => m.assignIfNew e.1 e.2) s.mapArgs := by
  rw [List.foldl_map]
  exact (List.foldl_hom Settings.mapArgs (by intro s e; rfl)).symm

theorem loadEntries_mapMultiArgs (entries : List (Str × Str)) (s : Settings) :
    (entries.foldl loadEntry s).mapMultiArgs =
      (entries.map settingOf).foldl (fun m e => m.pushBack e.1 e.2) s.mapMultiArgs := by
  rw [List.foldl_map]
  exact (List.foldl_hom Settings.mapMultiArgs (by intro s e; rfl)).symm

theorem Merged.loadEntries {preset : KeyMap Str Str} {history : List (Str × Str)} {s : Settings}
    (h : Merged preset history s) (entries : List (Str × Str)) :
    Merged preset (history ++ entries.map settingOf) (entries.foldl loadEntry s) where
  args k := by
    rw [loadEntries_mapArgs, KeyMap.foldl_assignIfNew, h.args k, valuesOf_append,
      List.head?_append, Option.or_assoc]
  multi k := by
    rw [loadEntries_mapMultiArgs, KeyMap.foldl_pushBack, h.multi k, valuesOf_append]

theorem Load.run_eq (l : Load) (s : Settings) : l.run s = loadStream l.fs s l.path := by
  cases hc : l.current <;> simp [Load.run, Load.path, hc, readFile, readCurrentFile]

theorem Load.run_ok {l : Load} {s t : Settings} (h : l.run s = (.ok, t)) :
    ∃ file, l.fs.stream l.path = some file ∧ file.malformed = false ∧
      t = file.entries.foldl loadEntry s := by
  rw [Load.run_eq, loadStream] at h
  cases hf : l.fs.stream l.path with
  | none => simp [hf] at h
  | some file =>
      cases hm : file.malformed with
      | true => simp [hf, hm] at h
      | false =>
          refine ⟨file, rfl, hm, ?_⟩
          simpa [hf, hm] using h.symm

theorem Merged.load {preset : KeyMap Str Str} {history : List (Str × Str)} {s t : Settings}
    {l : Load} (h : Merged preset history s) (hl : l.run s = (.ok, t)) :
    Merged preset (history ++ l.settings) t := by
  obtain ⟨file, hf, _, rfl⟩ := Load.run_ok hl
  have hs : l.settings = file.entries.map settingOf := by simp [Load.settings, hf]
  rw [hs]
  exact h.loadEntries file.entries

theorem loadAll_cons {s t : Settings} {l : Load} {loads : List Load}
    (h : loadAll s (l :: loads) = some t) :
    ∃ mid, l.run s = (.ok, mid) ∧ loadAll mid loads = some t := by
  rw [loadAll] at h
  split at h
  · exact ⟨_, by assumption, h⟩
  · cases h

theorem Merged.loadAll {preset : KeyMap Str Str} {history : List (Str × Str)} {s t : Settings}
    {loads : List Load} (h : Merged preset history s) (hl : loadAll s loads = some t) :
    Merged preset (history ++ loadedSettings loads) t := by
  induction loads generalizing history s with
  | nil =>
      cases hl
      simpa [loadedSettings] using h
  | cons l loads ih =>
      obtain ⟨mid, hrun, hrest⟩ := loadAll_cons hl
      have hnext := ih (h.load hrun) hrest
      simpa [loadedSettings, List.append_assoc] using hnext

theorem setFilePath_merged (home : Option Str) (filename : Str) :
    Merged (setFilePath home filename Settings.empty).mapArgs []
      (setFilePath home filename Settings.empty) where
  args k := by simp
  multi _ := rfl

theorem setFilePath_preset (home : Option Str) (filename : Str) (k : Str) :
    (setFilePath home filename Settings.empty).mapArgs k =
      if k = "-conf".toList then some (pathAppend (getCoinToolDir home) filename)
      else if k = "-datadir".toList then some (getCoinToolDir home)
      else none := rfl

theorem loadEntry_keeps {s : Settings} {k v : Str} (entry : Str × Str)
    (h : s.mapArgs k = some v) : (loadEntry s entry).mapArgs k = some v := by
  show (s.mapArgs.assignIfNew (settingOf entry).1 (settingOf entry).2) k = some v
  rw [KeyMap.assignIfNew_apply, h, Option.some_or]

theorem loadAll_keeps {s t : Settings} {loads : List Load} {k v : Str}
    (hl : loadAll s loads = some t) (h : s.mapArgs k = some v) : t.mapArgs k = some v := by
  induction loads generalizing s with
  | nil =>
      cases hl
      exact h
  | cons l loads ih =>
      obtain ⟨mid, hrun, hrest⟩ := loadAll_cons hl
      obtain ⟨file, _, _, rfl⟩ := Load.run_ok hrun
      apply ih hrest
      exact List.foldlRecOn (motive := fun s => s.mapArgs k = some v) file.entries loadEntry h
        fun _ hs entry _ => loadEntry_keeps entry hs

theorem loadAll_append {s t : Settings} {before after : List Load}
    (h : loadAll s (before ++ after) = some t) :
    ∃ mid, loadAll s before = some mid ∧ loadAll mid after = some t := by
  induction before generalizing s with
  | nil => exact ⟨s, rfl, h⟩
  | cons l before ih =>
      obtain ⟨next, hrun, hrest⟩ := loadAll_cons h
      obtain ⟨mid, hmid, hafter⟩ := ih hrest
      refine ⟨mid, ?_, hafter⟩
      simp only [loadAll, hrun, hmid]

theorem Merged.fresh {preset : KeyMap Str Str} {history : List (Str × Str)} {s : Settings}
    (h : Merged preset history s) {k : Str} (hk : preset k = none) :
    s.mapArgs k = (s.mapMultiArgs.lookup k).head? := by
  rw [h.args k, h.multi k, hk, Option.none_or]

theorem Merged.visited {preset : KeyMap Str Str} {history : List (Str × Str)} {s : Settings}
    (h : Merged preset history s) (k : Str) : s.visited k = valuesOf k history := by
  rw [Settings.visited, h.multi k, KeyMap.count, h.args k]
  cases preset k <;> cases valuesOf k history <;> simp

/-- After any run of successful loads `mapMultiArgs` lists, in load order and file order, all the
values of every key, and `mapArgs` holds the preset value or else the first of them; no later line
or file replaces a stored value, and a consumer of either map sees every line. -/
theorem loadAll_merges (home : Option Str) (filename : Str) (loads : List Load) (s : Settings)
    (h : loadAll (setFilePath home filename Settings.empty) loads = some s) :
    (∀ k, s.mapMultiArgs.lookup k = valuesOf k (loadedSettings loads)) ∧
    s.mapArgs "-datadir".toList = some (getCoinToolDir home) ∧
    s.mapArgs "-conf".toList = some (pathAppend (getCoinToolDir home) filename) ∧
    (∀ k, k ≠ "-datadir".toList → k ≠ "-conf".toList →
      s.mapArgs k = (valuesOf k (loadedSettings loads)).head? ∧
      (s.mapArgs.count k = true ↔ s.mapMultiArgs.lookup k ≠ []) ∧
      s.mapArgs k = (s.mapMultiArgs.lookup k).head?) ∧
    (∀ k, s.visited k = valuesOf k (loadedSettings loads)) ∧
    (∀ mid entry k v, mid.mapArgs k = some v → (loadEntry mid entry).mapArgs k = some v) ∧
    (∀ before after, loads = before ++ after →
      ∃ mid, loadAll (setFilePath home filename Settings.empty) before = some mid ∧
        ∀ k v, mid.mapArgs k = some v → s.mapArgs k = some v) := by
  have hm : Merged (setFilePath home filename Settings.empty).mapArgs (loadedSettings loads) s := by
    simpa using (setFilePath_merged home filename).loadAll h
  refine ⟨hm.multi, ?_, ?_, ?_, hm.visited, fun _ entry _ _ hv => loadEntry_keeps entry hv, ?_⟩
  · rw [hm.args, setFilePath_preset, if_neg (by decide), if_pos rfl, Option.some_or]
  · rw [hm.args, setFilePath_preset, if_pos rfl, Option.some_or]
  · intro k hdata hconf
    have hpreset : (setFilePath home filename Settings.empty).mapArgs k = none := by
      rw [setFilePath_preset, if_neg hconf, if_neg hdata]
    have hhead := hm.fresh hpreset
    refine ⟨by rw [hhead, hm.multi k], ?_, hhead⟩
    rw [KeyMap.count, hhead]
    cases s.mapMultiArgs.lookup k <;> simp
  · rintro before after rfl
    obtain ⟨mid, hmid, hafter⟩ := loadAll_append h
    exact ⟨mid, hmid, fun k v hv => loadAll_keeps hafter hv⟩

def twoLoads : List Load :=
  let fs : FileSystem :=
    { home := some "/root".toList
      stream := fun path =>
        if path = "/root/.cointools/tool.conf".toList then
          some ⟨[("debug".toList, "1".toList), ("nodebug".toList, [])], false⟩
        else if path = "more.conf".toList then
          some ⟨[("debug".toList, "2".toList), ("conf".toList, "x".toList)], false⟩
        else none }
  [⟨fs, false, "tool.conf".toList⟩, ⟨fs, true, "more.conf".toList⟩]

theorem twoLoads_merge :
    ∃ s, loadAll (setFilePath (some "/root".toList) "tool.conf".toList Settings.empty) twoLoads =
        some s ∧
      s.visited "-debug".toList = ["1".toList, "0".toList, "2".toList] := by
  refine ⟨_, rfl, ?_⟩
  rw [(loadAll_merges (some "/root".toList) "tool.conf".toList twoLoads _ rfl).2.2.2.2.1]
  decide

end CoinTool
