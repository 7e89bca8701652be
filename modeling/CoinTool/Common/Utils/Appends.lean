import CoinTool.Common.Utils.Stamps

/-!
# Appends to the log file

A call appends in one step what it has built, under the mutex.  So no text is torn or mixed with
another, whatever the interleaving; what may go wrong is only which texts begin with a stamp.
-/

namespace CoinTool

open Framework

/-- A text that a call may append: what it builds at some time from some value of the flag. -/
def BuiltBy (flags : LogFlags) (calls : List Call) (k : Nat) (text : List Piece) : Prop :=
  ∃ call now started, calls[k]? = some call ∧ text = stampedText flags call now started

section

variable {flags : LogFlags} {calls : List Call} {initial : LogFile} {s : LogState}

theorem contents_reachable (hs : (writeStrMachine flags calls initial).Reachable s) :
    ∃ texts, s.log.contents = initial.contents ++ texts.flatten ∧
      List.Forall₂ (BuiltBy flags calls) s.appended texts := by
  apply hs.invariant
  · intro s hs
    rw [hs]
    exact ⟨[], (List.append_nil _).symm, List.Forall₂.nil⟩
  · intro s a t hs h _ hn
    rcases writeStrMachine_appends (callsInv_reach hs) hn with ⟨hcontents, happended⟩ |
      ⟨call, now, started, hk, -, hcontents, happended⟩
    · rw [hcontents, happended]
      exact h
    · obtain ⟨texts, hfile, hall⟩ := h
      refine ⟨texts ++ [stampedText flags call now started], ?_, ?_⟩
      · rw [hcontents, hfile, List.flatten_append, List.append_assoc]
        simp
      · rw [happended]
        exact List.rel_append hall (List.Forall₂.cons ⟨call, now, started, hk, rfl⟩ .nil)

/-- No character of the message is lost: with thread names, one that holds a zero character is cut
there. -/
def Call.Whole (flags : LogFlags) (call : Call) : Prop :=
  flags.fLogThreadNames = true → '\x00' ∉ call.str

theorem messagesOf_map_char (str : Str) : messagesOf (str.map Piece.char) = str := by
  rw [messagesOf, List.filterMap_map]
  exact List.filterMap_some

theorem messagesOf_stampedText {call : Call} (h : call.Whole flags) (now : Int) (started : Bool) :
    messagesOf (stampedText flags call now started) = call.str := by
  have hname : messagesOf (getThreadNameStr flags call started) = call.str := by
    rw [getThreadNameStr]
    cases hflag : flags.fLogThreadNames with
    | false => exact messagesOf_map_char call.str
    | true =>
        cases started with
        | false => exact messagesOf_map_char call.str
        | true =>
            rw [cStr_of_not_mem (h hflag)]
            exact messagesOf_map_char call.str
  rw [stampedText, getTimestampStr]
  cases flags.fLogTimestamps with
  | false => exact hname
  | true =>
      cases started with
      | false => exact hname
      | true => exact hname

def messagesIn (calls : List Call) (order : List Nat) : Str :=
  order.flatMap fun k => (calls[k]?.map Call.str).getD []

theorem messagesOf_flatten (hwhole : ∀ call ∈ calls, call.Whole flags) {order : List Nat}
    {texts : List (List Piece)} (h : List.Forall₂ (BuiltBy flags calls) order texts) :
    messagesOf texts.flatten = messagesIn calls order := by
  induction h with
  | nil => rfl
  | cons hbuilt _ ih =>
      obtain ⟨call, now, started, hk, rfl⟩ := hbuilt
      rw [List.flatten_cons, messagesOf_append, ih, messagesIn, messagesIn, List.flatMap_cons,
        messagesOf_stampedText (hwhole call (List.mem_of_getElem? hk)), hk]
      rfl

end

section

variable {calls : List Call}

/-- Without prefixes a text does not depend on the flag, so that any order of the appends is that of
a sequential execution. -/
theorem sequentially_plain (initial : LogFile) {order : List Nat} {texts : List (List Piece)}
    (times : Nat → Int) (h : List.Forall₂ (BuiltBy ⟨false, false⟩ calls) order texts) :
    (sequentially ⟨false, false⟩ calls initial order times).contents =
      initial.contents ++ texts.flatten := by
  induction h generalizing initial with
  | nil => exact (List.append_nil _).symm
  | @cons k text order texts hbuilt _ ih =>
      obtain ⟨call, now, started, hk, rfl⟩ := hbuilt
      have hfirst : sequentially ⟨false, false⟩ calls initial (k :: order) times =
          sequentially ⟨false, false⟩ calls (writeStr ⟨false, false⟩ call (times k) initial) order
            times := by
        rw [sequentially, List.foldl_cons, hk]
        rfl
      rw [hfirst, ih, List.flatten_cons, ← List.append_assoc]
      rfl

theorem plain_serialised {initial : LogFile} {s : LogState}
    (hs : (writeStrMachine ⟨false, false⟩ calls initial).Reachable s)
    (hdone : AllReturned calls s) :
    Serialised ⟨false, false⟩ calls initial s := by
  obtain ⟨texts, hcontents, hall⟩ := contents_reachable hs
  refine ⟨s.appended, fun _ => 0, (callsInv_reach hs).perm hdone, ?_⟩
  rw [hcontents, sequentially_plain initial _ hall]

def prefixes (contents : List Piece) : Nat :=
  contents.countP fun
    | .char _ => false
    | _ => true

theorem prefixes_eraseTimes (contents : List Piece) :
    prefixes (eraseTimes contents) = prefixes contents := by
  rw [prefixes, eraseTimes, List.countP_map]
  apply List.countP_congr
  intro piece _
  cases piece <;> rfl

theorem prefixes_sequentially (flags : LogFlags) {order : List Nat} (times : Nat → Int)
    (horder : order.Perm (List.range 2)) :
    prefixes (sequentially flags twoCalls ⟨true, []⟩ order times).contents =
      flags.fLogTimestamps.toNat + flags.fLogThreadNames.toNat := by
  have hcases : order = [0, 1] ∨ order = [1, 0] := List.perm_pair.mp horder
  obtain ⟨times?, names?⟩ := flags
  rcases hcases with rfl | rfl <;> cases times? <;> cases names? <;> rfl

theorem prefixes_interleaved (flags : LogFlags) :
    ∃ s, (writeStrMachine flags twoCalls ⟨true, []⟩).Reachable s ∧ AllReturned twoCalls s ∧
      prefixes s.log.contents = 2 * (flags.fLogTimestamps.toNat + flags.fLogThreadNames.toNat) := by
  obtain ⟨s, hexec, hend⟩ := Machine.exec_exists (writeStrMachine flags twoCalls ⟨true, []⟩)
    ⟨⟨true, []⟩, fun _ => .ready, []⟩ [⟨0, 5⟩, ⟨1, 5⟩, ⟨0, 6⟩, ⟨1, 6⟩, ⟨0, 7⟩, ⟨1, 7⟩]
    (fun s => s.pc 0 = .returned ∧ s.pc 1 = .returned ∧ prefixes s.log.contents =
      2 * (flags.fLogTimestamps.toNat + flags.fLogThreadNames.toNat)) (by
        obtain ⟨times?, names?⟩ := flags
        cases times? <;> cases names? <;> decide)
  obtain ⟨hfirst, hsecond, hprefixes⟩ := of_decide_eq_true hend
  exact ⟨s, .exec (.start rfl) hexec, allReturned_of_two rfl hfirst hsecond, hprefixes⟩

end

/-- Every finished run leaves the file of a sequential execution exactly when the log has neither
time stamps nor thread names. -/
theorem writeStr_serialised_iff_plain (flags : LogFlags) :
    (∀ calls initial s, (writeStrMachine flags calls initial).Reachable s → AllReturned calls s →
      Serialised flags calls initial s) ↔
      flags.fLogTimestamps = false ∧ flags.fLogThreadNames = false := by
  constructor
  · intro h
    obtain ⟨s, hs, hdone, hprefixes⟩ := prefixes_interleaved flags
    obtain ⟨order, times, horder, hfile⟩ := h twoCalls ⟨true, []⟩ s hs hdone
    have hcount := congrArg prefixes hfile
    rw [prefixes_eraseTimes, prefixes_eraseTimes, hprefixes,
      prefixes_sequentially flags times horder] at hcount
    cases htimes : flags.fLogTimestamps <;> cases hnames : flags.fLogThreadNames <;>
      simp [htimes, hnames] at hcount ⊢
  · rintro ⟨htimes, hnames⟩ calls initial s hs hdone
    have hflags : flags = ⟨false, false⟩ := by
      cases flags
      rw [LogFlags.mk.injEq]
      exact ⟨htimes, hnames⟩
    rw [hflags] at hs ⊢
    exact plain_serialised hs hdone

end CoinTool
