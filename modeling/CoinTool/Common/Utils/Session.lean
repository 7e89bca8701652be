import CoinTool.Common.Utils.Levels
import CoinTool.Common.Utils.Stamps

/-!
# What a configured tool prints and logs

The calls of `ToolLog` in one thread, under the levels that `InitSys` has taken from a file that
`ReadFile` has loaded: each text goes to the screen, to the log file or nowhere.
-/

namespace CoinTool

open Framework

/-- A call of `ToolLog`: its level, what `vsprintf` leaves in the buffer, and the thread and time of
the call. -/
structure ToolCall where
  debug : Int
  buf : Str
  threadName : Str
  nTimeMicros : Int

def ToolCall.written (c : ToolCall) : Call × Int := (⟨c.buf, c.threadName⟩, c.nTimeMicros)

/-- What has been printed, and the log file. -/
structure Console where
  stdout : Str
  log : LogFile

def runToolLog (flags : LogFlags) (sys : SysState) (console : Console) (c : ToolCall) : Console :=
  match toolLog sys c.debug c.buf with
  | some (.printStr str) => { console with stdout := console.stdout ++ str }
  | some (.writeStr str) =>
      { console with log := writeStr flags ⟨str, c.threadName⟩ c.nTimeMicros console.log }
  | none => console

/-- The log file is opened for appending, so that what it held `before` stays. -/
def runSession (flags : LogFlags) (sys : SysState) (before : List Piece) (calls : List ToolCall) :
    Console :=
  calls.foldl (runToolLog flags sys) ⟨[], ⟨true, before⟩⟩

def LogFile.after (before : List Piece) (log : LogFile) : LogFile :=
  { log with contents := before ++ log.contents }

theorem writeStr_after (flags : LogFlags) (call : Call) (now : Int) (before : List Piece)
    (log : LogFile) :
    writeStr flags call now (log.after before) = (writeStr flags call now log).after before := by
  rw [writeStr, writeStr, LogFile.after, LogFile.after, List.append_assoc]

def configuredLevel (option : Str) (entries : List (Str × Str)) : Option Int :=
  (valuesOf option (entries.map settingOf)).head?.map atoi

def ToolCall.prints (shown : Option Int) (c : ToolCall) : Bool := c.debug = 0 || shown = some c.debug

def ToolCall.logs (shown logged : Option Int) (c : ToolCall) : Bool :=
  !c.prints shown && logged = some c.debug

section

variable {flags : LogFlags} {sys : SysState} {shown logged : Option Int}

structure SysState.Levels (sys : SysState) (shown logged : Option Int) : Prop where
  debug : ∀ d, d ∈ sys.sDebuglist ↔ shown = some d
  log : ∀ d, d ∈ sys.sLoglist ↔ logged = some d

theorem runToolLog_eq (h : sys.Levels shown logged) (console : Console) (c : ToolCall) :
    runToolLog flags sys console c =
      { stdout := console.stdout ++ if c.prints shown then c.buf else []
        log := if c.logs shown logged then
            writeStr flags c.written.1 c.written.2 console.log
          else console.log } := by
  by_cases hprints : c.debug = 0 ∨ shown = some c.debug
  · have hroute : toolLog sys c.debug c.buf = some (.printStr c.buf) := by
      rw [toolLog_printStr_iff, h.debug]
      exact hprints
    have htrue : c.prints shown = true := by simpa [ToolCall.prints] using hprints
    simp [runToolLog, hroute, ToolCall.logs, htrue]
  · have hfalse : c.prints shown = false := by simpa [ToolCall.prints] using hprints
    have hnot : ¬ (c.debug = 0 ∨ c.debug ∈ sys.sDebuglist) := by rwa [h.debug]
    by_cases hlogs : logged = some c.debug
    · have hroute : toolLog sys c.debug c.buf = some (.writeStr c.buf) := by
        rw [toolLog_writeStr_iff _ _ _ hnot, h.log]
        exact hlogs
      simp [runToolLog, hroute, ToolCall.logs, ToolCall.written, hfalse, hlogs]
    · have hroute : toolLog sys c.debug c.buf = none := by
        rw [not_or] at hnot
        rw [toolLog, if_neg (Ne.symm hnot.1), if_neg hnot.2, if_neg]
        rwa [h.log]
      simp [runToolLog, hroute, ToolCall.logs, hfalse, hlogs]

theorem runSession_eq (h : sys.Levels shown logged) (before : List Piece) (calls : List ToolCall) :
    runSession flags sys before calls =
      { stdout := (calls.filter (·.prints shown)).flatMap ToolCall.buf
        log := (written flags
          ((calls.filter (·.logs shown logged)).map ToolCall.written)).after before } := by
  induction calls using List.reverseRecOn with
  | nil =>
      rw [LogFile.after]
      simp [runSession, written]
  | append_singleton calls c ih =>
      have hsnoc : runSession flags sys before (calls ++ [c]) =
          runToolLog flags sys (runSession flags sys before calls) c := by
        rw [runSession, List.foldl_append]
        rfl
      rw [hsnoc, ih, runToolLog_eq h, List.filter_append, List.filter_append]
      cases hprints : c.prints shown <;> cases hlogs : c.logs shown logged <;>
        simp [hprints, hlogs, written_snoc, writeStr_after]

end

theorem initSys_levels (getBoolArg : KeyMap Str Str → Str → Bool → Bool) (network : Network)
    (home : Option Str) (filename : Str) (entries : List (Str × Str)) :
    (initSys getBoolArg (configured home filename entries) ⟨network, ∅, ∅⟩).Levels
      (configuredLevel "-debug".toList entries) (configuredLevel "-log".toList entries) := by
  have hm := (setFilePath_merged home filename).loadEntries entries
  rw [List.nil_append] at hm
  have hlevel {option : Str} (hpreset : (setFilePath home filename Settings.empty).mapArgs option = none)
      (d : Int) : d ∈ collectLevels (configured home filename entries) option ∅ ↔
        configuredLevel option entries = some d := by
    rw [configured, mem_collectLevels hm hpreset, configuredLevel, Option.map_eq_some_iff]
  constructor
  · apply hlevel
    rw [setFilePath_preset, if_neg (by decide), if_neg (by decide)]
  · apply hlevel
    rw [setFilePath_preset, if_neg (by decide), if_neg (by decide)]

/-- Whatever file `ReadFile` has loaded, whatever the log file held before and whatever the calls,
the screen shows the texts of level zero and of the level of the first `-debug` line, in order, and
the log file goes on with the calls left that have the level of the first `-log` line. -/
theorem toolLog_session (getBoolArg : KeyMap Str Str → Str → Bool → Bool) (network : Network)
    (home : Option Str) (filename : Str) (entries : List (Str × Str)) (flags : LogFlags)
    (before : List Piece) (calls : List ToolCall) :
    let shown := configuredLevel "-debug".toList entries
    let logged := configuredLevel "-log".toList entries
    let log := written flags ((calls.filter (·.logs shown logged)).map ToolCall.written)
    runSession flags (initSys getBoolArg (configured home filename entries) ⟨network, ∅, ∅⟩) before
        calls =
      { stdout := (calls.filter (·.prints shown)).flatMap ToolCall.buf
        log := { log with contents := before ++ log.contents } } :=
  runSession_eq (initSys_levels getBoolArg network home filename entries) before calls

end CoinTool
