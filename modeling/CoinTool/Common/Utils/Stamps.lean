import Mathlib.Data.List.Induction
import CoinTool.Common.Utils.Log

/-!
# Stamps and lines

The flag of `WriteStr` remembers how the last message ended, which is how the file ends.  A message
is stamped where it begins, so a newline inside a message is followed by a line without a stamp.
-/

namespace CoinTool

def messagesOf (contents : List Piece) : Str :=
  contents.filterMap fun
    | .char ch => some ch
    | _ => none

/-- A line starts after this piece; `none` is before the first one. -/
def StartsLine (previous : Option Piece) : Prop :=
  previous = none ∨ previous = some (.char '\n')

instance (previous : Option Piece) : Decidable (StartsLine previous) :=
  inferInstanceAs (Decidable (_ ∨ _))

def stamp (flags : LogFlags) (call : Call) (nTimeMicros : Int) : List Piece :=
  .time nTimeMicros :: if flags.fLogThreadNames then [.thread call.threadName] else []

/-- A piece is a time stamp exactly at the start of a line, and a thread name exactly after a time
stamp when thread names are logged. -/
def Stamped (flags : LogFlags) (previous : Option Piece) (piece : Piece) : Prop :=
  ((∃ now, piece = .time now) ↔ StartsLine previous) ∧
    ((∃ name, piece = .thread name) ↔
      flags.fLogThreadNames = true ∧ ∃ now, previous = some (.time now))

def StampedFrom (flags : LogFlags) : Option Piece → List Piece → Prop
  | _, [] => True
  | previous, piece :: rest =>
      Stamped flags previous piece ∧ StampedFrom flags (some piece) rest

def written (flags : LogFlags) (calls : List (Call × Int)) : LogFile :=
  calls.foldl (fun log c => writeStr flags c.1 c.2 log) ⟨true, []⟩

/-- A newline of the message is its last character. -/
def NewlineLast (str : Str) : Prop := ∀ before after, str = before ++ '\n' :: after → after = []

@[simp] theorem newlineLast_nil : NewlineLast [] := by
  intro before after h
  cases before <;> cases h

theorem newlineLast_cons_iff (ch : Char) (rest : Str) :
    NewlineLast (ch :: rest) ↔ (ch = '\n' → rest = []) ∧ NewlineLast rest := by
  constructor
  · intro h
    constructor
    · rintro rfl
      exact h [] rest rfl
    · intro before after hrest
      exact h (ch :: before) after (by rw [hrest, List.cons_append])
  · intro h before after hstr
    cases before with
    | nil =>
        obtain ⟨hch, hrest⟩ := List.cons.inj hstr
        rw [← hrest]
        exact h.1 hch
    | cons b before => exact h.2 before after (List.tail_eq_of_cons_eq hstr)

theorem stampedFrom_append (flags : LogFlags) (previous : Option Piece) (first second : List Piece) :
    StampedFrom flags previous (first ++ second) ↔
      StampedFrom flags previous first ∧ StampedFrom flags (first.getLast?.or previous) second := by
  induction first generalizing previous with
  | nil => simp [StampedFrom]
  | cons piece first ih =>
      have hlast : (piece :: first).getLast?.or previous = first.getLast?.or (some piece) := by
        rw [List.getLast?_cons]
        cases first.getLast? <;> rfl
      rw [List.cons_append, StampedFrom, StampedFrom, ih, hlast, and_assoc]

/-- The characters of a message that follow no line start are stamped as they should be unless a
newline stands before the last of them. -/
theorem stampedFrom_chars_iff (flags : LogFlags) (previous : Option Piece) (str : Str)
    (hline : ¬ StartsLine previous)
    (hthread : ¬ (flags.fLogThreadNames = true ∧ ∃ now, previous = some (.time now))) :
    StampedFrom flags previous (str.map Piece.char) ↔ NewlineLast str := by
  induction str generalizing previous with
  | nil => simp [StampedFrom]
  | cons ch rest ih =>
      have hchar : Stamped flags previous (.char ch) := by
        constructor
        · simp [hline]
        · simp only [reduceCtorEq, exists_false, false_iff]
          exact hthread
      rw [List.map_cons, StampedFrom, newlineLast_cons_iff]
      by_cases hch : ch = '\n'
      · -- a character after a newline has no stamp before it
        subst hch
        cases rest with
        | nil => simp [StampedFrom, hchar]
        | cons next rest => simp [StampedFrom, Stamped, StartsLine]
      · rw [ih]
        · simp [hchar, hch]
        · simp [StartsLine, hch]
        · simp

theorem stampedFrom_stamp (flags : LogFlags) (previous : Option Piece) (call : Call) (now : Int)
    (hline : StartsLine previous) :
    StampedFrom flags previous (stamp flags call now ++ call.str.map Piece.char) ↔
      NewlineLast call.str := by
  have htime : Stamped flags previous (.time now) := by
    constructor
    · simp [hline]
    · rcases hline with rfl | rfl <;> simp
  cases hflag : flags.fLogThreadNames with
  | false =>
      simp only [stamp, hflag, Bool.false_eq_true, if_false, List.singleton_append, StampedFrom,
        htime, true_and]
      apply stampedFrom_chars_iff
      · simp [StartsLine]
      · simp [hflag]
  | true =>
      have hname : Stamped flags (some (.time now)) (.thread call.threadName) := by
        simp [Stamped, StartsLine, hflag]
      simp only [stamp, hflag, if_true, List.cons_append, List.nil_append, StampedFrom, htime,
        hname, true_and]
      apply stampedFrom_chars_iff
      · simp [StartsLine]
      · simp

/-- The flag tells whether the file ends where a line starts, and no prefix is left unfinished. -/
structure LineFlag (flags : LogFlags) (log : LogFile) : Prop where
  flag : log.fStartedNewLine = true ↔ StartsLine log.contents.getLast?
  finished : flags.fLogThreadNames = true → ∀ now, log.contents.getLast? ≠ some (.time now)

section

variable {flags : LogFlags} {log : LogFile} {call : Call} {now : Int}

def stampedMessage (flags : LogFlags) (call : Call) (nTimeMicros : Int) (previous : Option Piece) :
    List Piece :=
  (if StartsLine previous then stamp flags call nTimeMicros else []) ++ call.str.map Piece.char

theorem writeStr_contents (htimes : flags.fLogTimestamps = true)
    (hstr : flags.fLogThreadNames = true → '\x00' ∉ call.str) (h : LineFlag flags log) :
    (writeStr flags call now log).contents =
      log.contents ++ stampedMessage flags call now log.contents.getLast? := by
  have hflag := h.flag
  cases hstarted : log.fStartedNewLine with
  | false =>
      rw [hstarted] at hflag
      have hline : ¬ StartsLine log.contents.getLast? := fun hl => Bool.noConfusion (hflag.mpr hl)
      simp [writeStr, stampedText, getTimestampStr, getThreadNameStr, stampedMessage, hstarted,
        hline]
  | true =>
      rw [hstarted] at hflag
      have hline : StartsLine log.contents.getLast? := hflag.mp rfl
      cases hname : flags.fLogThreadNames with
      | false =>
          simp [writeStr, stampedText, getTimestampStr, getThreadNameStr, stampedMessage, stamp,
            hstarted, hline, htimes, hname]
      | true =>
          simp [writeStr, stampedText, getTimestampStr, getThreadNameStr, stampedMessage, stamp,
            hstarted, hline, htimes, hname, cStr_of_not_mem (hstr hname)]

/-- The file ends as the message does; after an empty message it never ends where a line starts. -/
theorem stampedMessage_getLast (flags : LogFlags) (call : Call) (now : Int)
    (previous : Option Piece) :
    (StartsLine ((stampedMessage flags call now previous).getLast?.or previous) ↔
      startsNewLine call.str = true) ∧
    (flags.fLogThreadNames = true → (∀ now, previous ≠ some (.time now)) →
      ∀ now', (stampedMessage flags call now previous).getLast?.or previous ≠ some (.time now')) := by
  rcases List.eq_nil_or_concat call.str with hnil | ⟨init, ch, hlast⟩
  · by_cases hline : StartsLine previous
    · have hmessage : stampedMessage flags call now previous = stamp flags call now := by
        simp [stampedMessage, hnil, hline]
      rw [hmessage]
      cases hname : flags.fLogThreadNames <;>
        simp [stamp, startsNewLine, StartsLine, hnil, hname]
    · simp [stampedMessage, startsNewLine, hnil, hline]
  · have hend : (stampedMessage flags call now previous).getLast? = some (.char ch) := by
      rw [stampedMessage, hlast, List.concat_eq_append, List.map_append, ← List.append_assoc]
      exact List.getLast?_concat
    rw [hend, Option.some_or]
    simp [StartsLine, startsNewLine, hlast]

theorem LineFlag.writeStr (h : LineFlag flags log) (htimes : flags.fLogTimestamps = true)
    (hstr : flags.fLogThreadNames = true → '\x00' ∉ call.str) :
    LineFlag flags (writeStr flags call now log) := by
  obtain ⟨hline, hfinished⟩ :=
    stampedMessage_getLast flags call now log.contents.getLast?
  have hlast : (CoinTool.writeStr flags call now log).contents.getLast? =
      (stampedMessage flags call now log.contents.getLast?).getLast?.or log.contents.getLast? := by
    rw [writeStr_contents htimes hstr h, List.getLast?_append]
  constructor
  · rw [hlast, hline]
    rfl
  · intro hname
    rw [hlast]
    exact hfinished hname (h.finished hname)

theorem messagesOf_append (first second : List Piece) :
    messagesOf (first ++ second) = messagesOf first ++ messagesOf second :=
  List.filterMap_append

theorem messagesOf_stampedMessage (flags : LogFlags) (call : Call) (now : Int)
    (previous : Option Piece) : messagesOf (stampedMessage flags call now previous) = call.str := by
  have hchars : messagesOf (call.str.map Piece.char) = call.str := by
    rw [messagesOf, List.filterMap_map]
    exact List.filterMap_some
  have hstamp : messagesOf (if StartsLine previous then stamp flags call now else []) = [] := by
    cases hname : flags.fLogThreadNames <;> split <;> simp [messagesOf, stamp, hname]
  rw [stampedMessage, messagesOf_append, hstamp, hchars, List.nil_append]

theorem stampedFrom_stampedMessage (previous : Option Piece)
    (hfinished : flags.fLogThreadNames = true → ∀ now, previous ≠ some (.time now)) :
    StampedFrom flags previous (stampedMessage flags call now previous) ↔ NewlineLast call.str := by
  by_cases hline : StartsLine previous
  · rw [stampedMessage, if_pos hline]
    exact stampedFrom_stamp flags previous call now hline
  · rw [stampedMessage, if_neg hline, List.nil_append]
    apply stampedFrom_chars_iff _ _ _ hline
    intro hthread
    obtain ⟨hname, now', hprevious⟩ := hthread
    exact hfinished hname now' hprevious

end

theorem written_snoc (flags : LogFlags) (calls : List (Call × Int)) (c : Call × Int) :
    written flags (calls ++ [c]) = writeStr flags c.1 c.2 (written flags calls) := by
  rw [written, List.foldl_append]
  rfl

/-- No message that is written with a thread name has a zero character. -/
def PrintableWhole (flags : LogFlags) (calls : List (Call × Int)) : Prop :=
  flags.fLogThreadNames = true → ∀ c ∈ calls, '\x00' ∉ c.1.str

theorem PrintableWhole.left {flags : LogFlags} {first second : List (Call × Int)}
    (h : PrintableWhole flags (first ++ second)) : PrintableWhole flags first := by
  intro hname c hc
  exact h hname c (List.mem_append_left _ hc)

section

variable {flags : LogFlags} {calls : List (Call × Int)}

theorem written_lineFlag (htimes : flags.fLogTimestamps = true) (hwhole : PrintableWhole flags calls) :
    LineFlag flags (written flags calls) := by
  induction calls using List.reverseRecOn with
  | nil =>
      constructor
      · simp [written, StartsLine]
      · simp [written]
  | append_singleton calls c ih =>
      rw [written_snoc]
      apply LineFlag.writeStr
      · exact ih hwhole.left
      · exact htimes
      · intro hname
        exact hwhole hname c (by simp)

theorem written_snoc_contents (htimes : flags.fLogTimestamps = true) (c : Call × Int)
    (hwhole : PrintableWhole flags (calls ++ [c])) :
    (written flags (calls ++ [c])).contents = (written flags calls).contents ++
      stampedMessage flags c.1 c.2 (written flags calls).contents.getLast? := by
  rw [written_snoc]
  apply writeStr_contents htimes
  · intro hname
    exact hwhole hname c (by simp)
  · exact written_lineFlag htimes hwhole.left

theorem messagesOf_written (htimes : flags.fLogTimestamps = true)
    (hwhole : PrintableWhole flags calls) :
    messagesOf (written flags calls).contents = calls.flatMap fun c => c.1.str := by
  induction calls using List.reverseRecOn with
  | nil => rfl
  | append_singleton calls c ih =>
      rw [written_snoc_contents htimes c hwhole, messagesOf_append, messagesOf_stampedMessage,
        ih hwhole.left, List.flatMap_append, List.flatMap_singleton]

theorem stampedFrom_written_iff (htimes : flags.fLogTimestamps = true)
    (hwhole : PrintableWhole flags calls) :
    StampedFrom flags none (written flags calls).contents ↔ ∀ c ∈ calls, NewlineLast c.1.str := by
  induction calls using List.reverseRecOn with
  | nil => simp [written, StampedFrom]
  | append_singleton calls c ih =>
      have hline := written_lineFlag htimes hwhole.left
      rw [written_snoc_contents htimes c hwhole, stampedFrom_append, ih hwhole.left, Option.or_none,
        stampedFrom_stampedMessage _ hline.finished]
      simp only [List.forall_mem_append, List.forall_mem_singleton]

end

/-- Without the prefixes the file is the messages.  A call that begins where a line starts writes one
prefix before its message, and any other call writes its message alone.  So every line starts with
exactly one prefix, and there is none elsewhere, exactly when no message has a newline before its
last character. -/
theorem writeStr_stamps (flags : LogFlags) (calls : List (Call × Int))
    (htimes : flags.fLogTimestamps = true) (hwhole : PrintableWhole flags calls) :
    (messagesOf (written flags calls).contents = calls.flatMap fun c => c.1.str) ∧
    (∀ before call now after, calls = before ++ (call, now) :: after →
      (written flags (before ++ [(call, now)])).contents = (written flags before).contents ++
        (if StartsLine (written flags before).contents.getLast? then stamp flags call now else []) ++
        call.str.map Piece.char) ∧
    (StampedFrom flags none (written flags calls).contents ↔
      ∀ c ∈ calls, NewlineLast c.1.str) := by
  refine ⟨messagesOf_written htimes hwhole, ?_, stampedFrom_written_iff htimes hwhole⟩
  rintro before call now after rfl
  rw [List.append_cons] at hwhole
  rw [written_snoc_contents htimes (call, now) hwhole.left, stampedMessage, List.append_assoc]

/-- The second message begins inside the line that the first has left open. -/
theorem writeStr_stamps_sample :
    messagesOf (written ⟨true, true⟩
        [(⟨"a".toList, "x".toList⟩, 1), (⟨"b\n".toList, "y".toList⟩, 2)]).contents =
      "ab\n".toList ∧
    StampedFrom ⟨true, true⟩ none (written ⟨true, true⟩
        [(⟨"a".toList, "x".toList⟩, 1), (⟨"b\n".toList, "y".toList⟩, 2)]).contents := by
  have hstamps := writeStr_stamps ⟨true, true⟩
    [(⟨"a".toList, "x".toList⟩, 1), (⟨"b\n".toList, "y".toList⟩, 2)] rfl
    (by rw [PrintableWhole]; decide)
  refine ⟨hstamps.1, hstamps.2.2.mpr ?_⟩
  simp [newlineLast_cons_iff]

/-- A line that begins inside a message has no stamp, and a message is written up to its first zero
character when a thread name stands before it. -/
theorem writeStr_unstamped_line :
    (¬ ∀ (flags : LogFlags) (calls : List (Call × Int)), flags.fLogTimestamps = true →
      StampedFrom flags none (written flags calls).contents) ∧
    ¬ ∀ (flags : LogFlags) (calls : List (Call × Int)), flags.fLogTimestamps = true →
      messagesOf (written flags calls).contents = calls.flatMap fun c => c.1.str := by
  constructor
  · intro h
    have hstamped := h ⟨true, false⟩ [(⟨"a\nb".toList, []⟩, 0)] rfl
    rw [stampedFrom_written_iff rfl (by simp [PrintableWhole])] at hstamped
    have hlast := hstamped _ (List.mem_singleton_self _) "a".toList "b".toList rfl
    cases hlast
  · intro h
    exact absurd (h ⟨true, true⟩ [(⟨['\x00'], []⟩, 0)] rfl) (by decide)

end CoinTool
