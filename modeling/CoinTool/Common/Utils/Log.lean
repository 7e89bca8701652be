import Mathlib.Data.List.Permutation
import Mathlib.Data.List.Nodup
import Mathlib.Logic.Function.Basic
import CoinTool.Framework.Machine
import CoinTool.Common.Utils.Text

/-!
# The log file

`WriteStr` decides by the static flag `fStartedNewLine` whether its text starts with a time stamp,
updates the flag, and only then takes the mutex under which it appends to the file.
-/

namespace CoinTool

open Framework

/-- What the log file is made of: inserted time stamps, inserted thread names, and the characters
of the messages. -/
inductive Piece where
  | time (nTimeMicros : Int)
  | thread (name : Str)
  | char (ch : Char)
  deriving DecidableEq, Repr

structure LogFlags where
  fLogTimestamps : Bool
  fLogThreadNames : Bool

structure Call where
  str : Str
  threadName : Str

def getThreadNameStr (flags : LogFlags) (call : Call) (fStartedNewLine : Bool) : List Piece :=
  if !flags.fLogThreadNames then call.str.map Piece.char
  else if fStartedNewLine then .thread call.threadName :: (cStr call.str).map Piece.char
  else call.str.map Piece.char

def getTimestampStr (flags : LogFlags) (nTimeMicros : Int) (str : List Piece)
    (fStartedNewLine : Bool) : List Piece :=
  if !flags.fLogTimestamps then str
  else if fStartedNewLine then .time nTimeMicros :: str
  else str

def stampedText (flags : LogFlags) (call : Call) (nTimeMicros : Int) (fStartedNewLine : Bool) :
    List Piece :=
  getTimestampStr flags nTimeMicros (getThreadNameStr flags call fStartedNewLine) fStartedNewLine

def startsNewLine (str : Str) : Bool := str.getLast? = some '\n'

structure LogFile where
  fStartedNewLine : Bool
  contents : List Piece

/-- A call of `WriteStr` that no other call overlaps. -/
def writeStr (flags : LogFlags) (call : Call) (nTimeMicros : Int) (log : LogFile) : LogFile :=
  { fStartedNewLine := startsNewLine call.str
    contents := log.contents ++ stampedText flags call nTimeMicros log.fStartedNewLine }

def eraseTimes (contents : List Piece) : List Piece :=
  contents.map fun
    | .time _ => .time 0
    | piece => piece

/-- Where a call is: `started` is the flag it has read and `text` what it has built. -/
inductive CallPc where
  | ready
  | built (started : Bool) (text : List Piece)
  | updated (started : Bool) (text : List Piece)
  | returned
  deriving DecidableEq, Repr

/-- `appended` lists the calls in the order of their appends. -/
structure LogState where
  log : LogFile
  pc : Nat → CallPc
  appended : List Nat

def LogState.move (s : LogState) (k : Nat) (pc : CallPc) : LogState :=
  { s with pc := Function.update s.pc k pc }

@[simp] theorem LogState.move_log (s : LogState) (k : Nat) (pc : CallPc) :
    (s.move k pc).log = s.log := rfl

@[simp] theorem LogState.move_appended (s : LogState) (k : Nat) (pc : CallPc) :
    (s.move k pc).appended = s.appended := rfl

@[simp] theorem LogState.move_pc_same (s : LogState) (k : Nat) (pc : CallPc) :
    (s.move k pc).pc k = pc := by
  simp [LogState.move]

theorem LogState.move_pc_ne (s : LogState) {j k : Nat} (pc : CallPc) (h : j ≠ k) :
    (s.move k pc).pc j = s.pc j := by
  simp [LogState.move, Function.update_of_ne h]

structure LogAction where
  call : Nat
  nTimeMicros : Int

section

variable (flags : LogFlags) (calls : List Call) (initial : LogFile)

/-- The three atomic steps of `WriteStr`, for concurrent calls from an initial log. -/
def writeStrMachine : Machine LogState LogAction where
  start s := s = ⟨initial, fun _ => .ready, []⟩
  next s a :=
    match calls[a.call]?, s.pc a.call with
    | some call, .ready =>
        let started := s.log.fStartedNewLine
        let text := stampedText flags call a.nTimeMicros started
        some (s.move a.call (.built started text))
    | some call, .built started text =>
        some { s.move a.call (.updated started text) with
          log := { s.log with fStartedNewLine := startsNewLine call.str } }
    | some _, .updated _ text =>
        some { s.move a.call .returned with
          log := { s.log with contents := s.log.contents ++ text }
          appended := s.appended ++ [a.call] }
    | _, _ => none

def sequentially (order : List Nat) (times : Nat → Int) : LogFile :=
  order.foldl (fun log k =>
    match calls[k]? with
    | some call => writeStr flags call (times k) log
    | none => log) initial

def AllReturned (s : LogState) : Prop := ∀ k, k < calls.length → s.pc k = .returned

/-- The file is what the calls leave when executed one after another in some order. -/
def Serialised (s : LogState) : Prop :=
  ∃ order times, order.Perm (List.range calls.length) ∧
    eraseTimes s.log.contents = eraseTimes (sequentially flags calls initial order times).contents

/-- The flag as the calls appended so far leave it in their order. -/
def flagAfter (order : List Nat) : Bool :=
  (sequentially flags calls initial order fun _ => 0).fStartedNewLine

/-- A call appends only text that it built from the flag as the call appended last leaves it. -/
def appendsCurrent (s : LogState) (a : LogAction) : Bool :=
  match s.pc a.call with
  | .updated started _ => started == flagAfter flags calls initial s.appended
  | _ => true

end

@[simp] theorem eraseTimes_append (first second : List Piece) :
    eraseTimes (first ++ second) = eraseTimes first ++ eraseTimes second := by
  simp [eraseTimes]

theorem eraseTimes_stampedText (flags : LogFlags) (call : Call) (now now' : Int) (started : Bool) :
    eraseTimes (stampedText flags call now started) =
      eraseTimes (stampedText flags call now' started) := by
  unfold stampedText getTimestampStr
  cases flags.fLogTimestamps <;> cases started <;> simp [eraseTimes]

section

variable {flags : LogFlags} {calls : List Call} {initial : LogFile}

theorem sequentially_snoc {order : List Nat} {k : Nat} {call : Call} (times : Nat → Int)
    (hk : calls[k]? = some call) :
    sequentially flags calls initial (order ++ [k]) times =
      writeStr flags call (times k) (sequentially flags calls initial order times) := by
  simp [sequentially, hk]

theorem writeStrMachine_cases {s t : LogState} {a : LogAction}
    (h : (writeStrMachine flags calls initial).next s a = some t) :
    ∃ call, calls[a.call]? = some call ∧
      ((s.pc a.call = .ready ∧
        t = s.move a.call (.built s.log.fStartedNewLine
          (stampedText flags call a.nTimeMicros s.log.fStartedNewLine))) ∨
      (∃ started text, s.pc a.call = .built started text ∧
        t = { s.move a.call (.updated started text) with
          log := { s.log with fStartedNewLine := startsNewLine call.str } }) ∨
      (∃ started text, s.pc a.call = .updated started text ∧
        t = { s.move a.call .returned with
          log := { s.log with contents := s.log.contents ++ text }
          appended := s.appended ++ [a.call] })) := by
  simp only [writeStrMachine] at h
  cases hc : calls[a.call]? with
  | none => simp [hc] at h
  | some call =>
      refine ⟨call, rfl, ?_⟩
      cases hpc : s.pc a.call with
      | ready =>
          simp only [hc, hpc, Option.some.injEq] at h
          exact Or.inl ⟨rfl, h.symm⟩
      | built started text =>
          simp only [hc, hpc, Option.some.injEq] at h
          exact Or.inr (Or.inl ⟨started, text, rfl, h.symm⟩)
      | updated started text =>
          simp only [hc, hpc, Option.some.injEq] at h
          exact Or.inr (Or.inr ⟨started, text, rfl, h.symm⟩)
      | returned => simp [hc, hpc] at h

def HoldsText (flags : LogFlags) (calls : List Call) (k : Nat) : CallPc → Prop
  | .ready | .returned => True
  | .built started text | .updated started text =>
      ∃ call now, calls[k]? = some call ∧ text = stampedText flags call now started

/-- A call under way holds a text that it built, and the calls that have appended are those that
have returned. -/
structure CallsInv (flags : LogFlags) (calls : List Call) (s : LogState) : Prop where
  text : ∀ k, HoldsText flags calls k (s.pc k)
  appended : ∀ k, k ∈ s.appended ↔ s.pc k = .returned
  called : ∀ k ∈ s.appended, k < calls.length
  nodup : s.appended.Nodup

theorem callsInv_start : CallsInv flags calls ⟨initial, fun _ => .ready, []⟩ where
  text _ := trivial
  appended k := by simp
  called k hk := by simp at hk
  nodup := List.nodup_nil

theorem CallsInv.local {s : LogState} (h : CallsInv flags calls s) (k : Nat) (pc : CallPc)
    (log : LogFile) (hold : s.pc k ≠ .returned) (hnew : pc ≠ .returned)
    (htext : HoldsText flags calls k pc) : CallsInv flags calls { s.move k pc with log } where
  text j := by
    show HoldsText flags calls j ((s.move k pc).pc j)
    by_cases hj : j = k
    · subst j
      simpa using htext
    · simpa [s.move_pc_ne pc hj] using h.text j
  appended j := by
    show j ∈ s.appended ↔ (s.move k pc).pc j = .returned
    by_cases hj : j = k
    · subst j
      simp [h.appended, hold, hnew]
    · rw [h.appended, s.move_pc_ne pc hj]
  called := h.called
  nodup := h.nodup

theorem CallsInv.append {s : LogState} (h : CallsInv flags calls s) {k : Nat}
    (hk : k < calls.length) (hpc : s.pc k ≠ .returned) (log : LogFile) :
    CallsInv flags calls
      { s.move k .returned with log := log, appended := s.appended ++ [k] } := by
  have hfresh : k ∉ s.appended := by
    rw [h.appended]
    exact hpc
  refine ⟨?_, ?_, ?_, ?_⟩
  · intro j
    show HoldsText flags calls j ((s.move k .returned).pc j)
    by_cases hj : j = k
    · subst j
      simp [HoldsText]
    · simpa [s.move_pc_ne _ hj] using h.text j
  · intro j
    show j ∈ s.appended ++ [k] ↔ (s.move k .returned).pc j = .returned
    by_cases hj : j = k
    · subst j
      simp
    · simp [h.appended, s.move_pc_ne _ hj, hj]
  · intro j hj
    simp only [List.mem_append, List.mem_singleton] at hj
    rcases hj with hj | rfl
    · exact h.called j hj
    · exact hk
  · simpa [List.nodup_append] using ⟨h.nodup, fun j hj he => hfresh (he ▸ hj)⟩

theorem callsInv_step {s t : LogState} {a : LogAction} (h : CallsInv flags calls s)
    (hn : (writeStrMachine flags calls initial).next s a = some t) : CallsInv flags calls t := by
  obtain ⟨call, hk, hcases⟩ := writeStrMachine_cases hn
  rcases hcases with ⟨hpc, rfl⟩ | ⟨started, text, hpc, rfl⟩ | ⟨started, text, hpc, rfl⟩
  · exact h.local a.call _ s.log (by simp [hpc]) (by simp) ⟨call, a.nTimeMicros, hk, rfl⟩
  · have htext := h.text a.call
    rw [hpc] at htext
    exact h.local a.call _ _ (by simp [hpc]) (by simp) htext
  · exact h.append (List.getElem?_eq_some_iff.mp hk).1 (by simp [hpc]) _

theorem callsInv_reach {ok : LogState → LogAction → Prop} {s : LogState}
    (hs : (writeStrMachine flags calls initial).Reach ok s) : CallsInv flags calls s := by
  apply hs.invariant
  · intro s hs
    rw [hs]
    exact callsInv_start
  · intro s a t _ h _ hn
    exact callsInv_step h hn

theorem writeStrMachine_appends {s t : LogState} {a : LogAction} (h : CallsInv flags calls s)
    (hn : (writeStrMachine flags calls initial).next s a = some t) :
    (t.log.contents = s.log.contents ∧ t.appended = s.appended) ∨
      ∃ call now started, calls[a.call]? = some call ∧
        s.pc a.call = .updated started (stampedText flags call now started) ∧
        t.log.contents = s.log.contents ++ stampedText flags call now started ∧
        t.appended = s.appended ++ [a.call] := by
  obtain ⟨_, _, hcases⟩ := writeStrMachine_cases hn
  rcases hcases with ⟨hpc, rfl⟩ | ⟨started, text, hpc, rfl⟩ | ⟨started, text, hpc, rfl⟩
  · exact Or.inl ⟨rfl, rfl⟩
  · exact Or.inl ⟨rfl, rfl⟩
  · have htext := h.text a.call
    rw [hpc] at htext
    obtain ⟨call, now, hk, rfl⟩ := htext
    exact Or.inr ⟨call, now, started, hk, hpc, rfl, rfl⟩

theorem CallsInv.perm {s : LogState} (h : CallsInv flags calls s) (hdone : AllReturned calls s) :
    s.appended.Perm (List.range calls.length) := by
  rw [List.perm_ext_iff_of_nodup h.nodup List.nodup_range]
  intro k
  rw [List.mem_range]
  constructor
  · exact h.called k
  · intro hk
    exact (h.appended k).mpr (hdone k hk)

theorem allReturned_of_two {s : LogState} (htwo : calls.length = 2) (hfirst : s.pc 0 = .returned)
    (hsecond : s.pc 1 = .returned) : AllReturned calls s := by
  intro k hk
  have hcases : k = 0 ∨ k = 1 := by omega
  rcases hcases with rfl | rfl
  · exact hfirst
  · exact hsecond

theorem contents_of_current {s : LogState}
    (hs : (writeStrMachine flags calls initial).Reach
      (fun s a => appendsCurrent flags calls initial s a = true) s) :
    eraseTimes s.log.contents =
      eraseTimes (sequentially flags calls initial s.appended fun _ => 0).contents := by
  apply hs.invariant
  · intro s hs
    rw [hs]
    rfl
  · intro s a t hs h hok hn
    rcases writeStrMachine_appends (callsInv_reach hs) hn with ⟨hcontents, happended⟩ |
      ⟨call, now, started, hk, hpc, hcontents, happended⟩
    · rw [hcontents, happended, h]
    · have hcurrent : started = flagAfter flags calls initial s.appended := by
        simpa [appendsCurrent, hpc] using hok
      rw [hcontents, happended, sequentially_snoc _ hk, writeStr, eraseTimes_append,
        eraseTimes_append, h, hcurrent]
      exact congrArg _ (eraseTimes_stampedText flags call now 0 _)

end

/-- In every run whose appends all write a stamp decision that is still current, the file left by
the returned calls is that of a sequential execution. -/
theorem writeStr_serialised_of_current (flags : LogFlags) (calls : List Call) (initial : LogFile)
    (s : LogState)
    (hs : (writeStrMachine flags calls initial).Reach
      (fun s a => appendsCurrent flags calls initial s a = true) s)
    (hdone : AllReturned calls s) : Serialised flags calls initial s :=
  ⟨s.appended, fun _ => 0, (callsInv_reach hs).perm hdone, contents_of_current hs⟩

def twoLines : List Call := [⟨"a\n".toList, "x".toList⟩, ⟨"b\n".toList, "y".toList⟩]

/-- The calls overlap: both build their text before either appends it, and both lines have the stamp
that they are to have. -/
theorem writeStr_serialised_of_current_twoLines :
    ∃ s, (writeStrMachine ⟨true, false⟩ twoLines ⟨true, []⟩).execWhile
        (fun s a => appendsCurrent ⟨true, false⟩ twoLines ⟨true, []⟩ s a = true)
        ⟨⟨true, []⟩, fun _ => .ready, []⟩
        [⟨0, 5⟩, ⟨1, 6⟩, ⟨1, 7⟩, ⟨0, 8⟩, ⟨1, 9⟩, ⟨0, 10⟩] = some s ∧
      s.appended = [1, 0] ∧ Serialised ⟨true, false⟩ twoLines ⟨true, []⟩ s := by
  obtain ⟨s, hexec, hdone⟩ := Machine.execWhile_exists
    (writeStrMachine ⟨true, false⟩ twoLines ⟨true, []⟩)
    (fun s a => appendsCurrent ⟨true, false⟩ twoLines ⟨true, []⟩ s a = true)
    ⟨⟨true, []⟩, fun _ => .ready, []⟩
    [⟨0, 5⟩, ⟨1, 6⟩, ⟨1, 7⟩, ⟨0, 8⟩, ⟨1, 9⟩, ⟨0, 10⟩]
    (fun s => s.pc 0 = .returned ∧ s.pc 1 = .returned ∧ s.appended = [1, 0]) (by decide)
  simp only [decide_eq_true_eq] at hdone
  obtain ⟨hfirst, hsecond, happended⟩ := hdone
  exact ⟨s, hexec, happended,
    writeStr_serialised_of_current _ _ _ s (Machine.Reach.execWhile (.start rfl) hexec)
      (allReturned_of_two rfl hfirst hsecond)⟩

def twoCalls : List Call := [⟨"a".toList, "x".toList⟩, ⟨"b".toList, "y".toList⟩]

/-- Both calls read the flag before either updates it, and the file gets two stamps in one line. -/
theorem writeStr_not_serialised :
    ¬ ∀ (flags : LogFlags) (calls : List Call) (initial : LogFile) (s : LogState),
      flags.fLogTimestamps = true → (writeStrMachine flags calls initial).Reachable s →
        AllReturned calls s → Serialised flags calls initial s := by
  intro h
  obtain ⟨s, hexec, hend⟩ := Machine.exec_exists
    (writeStrMachine ⟨true, false⟩ twoCalls ⟨true, []⟩)
    ⟨⟨true, []⟩, fun _ => .ready, []⟩
    [⟨0, 5⟩, ⟨1, 5⟩, ⟨0, 6⟩, ⟨1, 6⟩, ⟨0, 7⟩, ⟨1, 7⟩]
    (fun s => s.pc 0 = .returned ∧ s.pc 1 = .returned ∧
      s.log.contents = [.time 5, .char 'a', .time 5, .char 'b']) (by decide)
  simp only [decide_eq_true_eq] at hend
  obtain ⟨hfirst, hsecond, hcontents⟩ := hend
  obtain ⟨order, times, hperm, hfile⟩ := h ⟨true, false⟩ twoCalls ⟨true, []⟩ s rfl
    (Machine.Reachable.exec (.start rfl) hexec) (allReturned_of_two rfl hfirst hsecond)
  rw [hcontents] at hfile
  have horder : order = [0, 1] ∨ order = [1, 0] := List.perm_pair.mp hperm
  rcases horder with rfl | rfl
  · exact absurd hfile (by simp [sequentially, twoCalls, writeStr, stampedText, eraseTimes,
      getTimestampStr, getThreadNameStr, startsNewLine])
  · exact absurd hfile (by simp [sequentially, twoCalls, writeStr, stampedText, eraseTimes,
      getTimestampStr, getThreadNameStr, startsNewLine])

end CoinTool
