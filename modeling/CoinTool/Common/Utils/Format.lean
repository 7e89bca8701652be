import CoinTool.Common.Utils.Config

/-!
# Formatting into fixed buffers

`showerror` and `ToolLog` format with `vsprintf` into a buffer on the stack, which is as long as it
is whatever the arguments are.
-/

namespace CoinTool

/-- `vsprintf` for the formats of the tools, whose only conversion is `%s`. -/
def vsprintf : Str → List Str → Str
  | '%' :: 's' :: format, arg :: args => cStr arg ++ vsprintf format args
  | ch :: format, args => ch :: vsprintf format args
  | [], _ => []

/-- A call of a formatter: the size of its buffer and the text that it writes there. -/
structure FormatCall where
  size : Nat
  text : Str

def showerrorCall (format : Str) (args : List Str) : FormatCall := ⟨100, vsprintf format args⟩

def toolLogCall (format : Str) (args : List Str) : FormatCall := ⟨1000, vsprintf format args⟩

/-- The text and the zero after it are written inside the buffer. -/
def FormatCall.Fits (c : FormatCall) : Prop := ∀ i ≤ c.text.length, i < c.size

theorem FormatCall.fits_iff (c : FormatCall) : c.Fits ↔ c.text.length < c.size := by
  constructor
  · intro h
    exact h c.text.length (Nat.le_refl _)
  · intro h i hi
    exact Nat.lt_of_le_of_lt hi h

theorem vsprintf_literal (format : Str) (args : List Str) (h : '%' ∉ format) :
    vsprintf format args = format := by
  induction format with
  | nil => rfl
  | cons ch format ih =>
      rw [List.mem_cons, not_or] at h
      obtain ⟨hch, hformat⟩ := h
      rw [vsprintf, ih hformat]
      intro _ _ _ _ hpercent
      exact absurd hpercent.symm hch

theorem vsprintf_conversion (before after arg : Str) (args : List Str) (h : '%' ∉ before) :
    vsprintf (before ++ '%' :: 's' :: after) (arg :: args) =
      before ++ (cStr arg ++ vsprintf after args) := by
  induction before with
  | nil => rfl
  | cons ch before ih =>
      rw [List.mem_cons, not_or] at h
      obtain ⟨hch, hbefore⟩ := h
      rw [List.cons_append, vsprintf, ih hbefore, List.cons_append]
      intro _ _ _ _ hpercent
      exact absurd hpercent.symm hch

theorem cStr_length_le (str : Str) : (cStr str).length ≤ str.length :=
  (List.takeWhile_prefix _).length_le

def openFailed (path : Str) : FormatCall := showerrorCall "Open file <%s> failed!".toList [path]

def Load.calls (l : Load) (s : Settings) : List FormatCall :=
  match (l.run s).1 with
  | .failed _ => [openFailed l.path]
  | .ok | .exception => []

theorem openFailed_text (path : Str) :
    (openFailed path).text = "Open file <".toList ++ (cStr path ++ "> failed!".toList) := by
  have hformat : "Open file <%s> failed!".toList =
      "Open file <".toList ++ '%' :: 's' :: "> failed!".toList := rfl
  rw [openFailed, showerrorCall, hformat, vsprintf_conversion _ _ _ _ (by decide),
    vsprintf_literal _ _ (by decide)]

theorem openFailed_fits_iff (path : Str) : (openFailed path).Fits ↔ (cStr path).length ≤ 79 := by
  have hbefore : "Open file <".toList.length = 11 := rfl
  have hafter : "> failed!".toList.length = 9 := rfl
  have hsize : (openFailed path).size = 100 := rfl
  rw [FormatCall.fits_iff, openFailed_text, List.length_append, List.length_append, hbefore, hafter,
    hsize]
  omega

theorem Load.calls_failed {l : Load} {s t : Settings} {message : Str}
    (h : l.run s = (.failed message, t)) (hpath : '\x00' ∉ l.path) :
    l.calls s = [⟨100, message⟩] := by
  have hmessage : message = "Open file <".toList ++ l.path ++ "> failed!".toList := by
    rw [Load.run_eq, loadStream] at h
    cases hfile : l.fs.stream l.path with
    | none =>
        rw [hfile] at h
        cases h
        rfl
    | some file =>
        rw [hfile] at h
        cases hread : file.malformed <;> simp [hread] at h
  have htext := openFailed_text l.path
  rw [cStr_of_not_mem hpath, ← List.append_assoc, ← hmessage] at htext
  rw [Load.calls, h, ← htext]
  rfl

theorem Load.calls_fit_iff (l : Load) (s : Settings) :
    (∀ c ∈ l.calls s, c.Fits) ↔
      (l.fs.stream l.path).isSome = true ∨ (cStr l.path).length ≤ 79 := by
  rw [Load.calls, Load.run_eq, loadStream]
  cases hfile : l.fs.stream l.path with
  | none => simp [openFailed_fits_iff]
  | some file => cases hread : file.malformed <;> simp [hread]

def firstMissing (s : Settings) : List (Str × Str) → List FormatCall
  | [] => []
  | (name, format) :: options =>
      if s.mapArgs.count name then firstMissing s options else [showerrorCall format []]

def checkKeyCalls (s : Settings) : List FormatCall :=
  firstMissing s
    [("-privkey".toList, "File without privkey, add privkey= frist!".toList),
      ("-pubkey".toList, "File without pubkey, add pubkey= frist!".toList),
      ("-message".toList, "File without message, add message= frist!".toList)]

def sendAlertCalls (s : Settings) : List FormatCall :=
  firstMissing s [("-privkey".toList, "File without privkey, add privkey= frist!".toList)]

theorem firstMissing_fits {s : Settings} {options : List (Str × Str)}
    (h : ∀ option ∈ options, (showerrorCall option.2 []).Fits) :
    ∀ c ∈ firstMissing s options, c.Fits := by
  induction options with
  | nil =>
      intro c hc
      cases hc
  | cons option options ih =>
      intro c hc
      obtain ⟨name, format⟩ := option
      rw [firstMissing] at hc
      split at hc
      · apply ih _ c hc
        intro option hoption
        exact h option (List.mem_cons_of_mem _ hoption)
      · rw [List.mem_singleton] at hc
        rw [hc]
        exact h (name, format) List.mem_cons_self

theorem checkKeyCalls_fit (s : Settings) : ∀ c ∈ checkKeyCalls s, c.Fits := by
  apply firstMissing_fits
  simp only [List.forall_mem_cons, FormatCall.fits_iff]
  decide

theorem sendAlertCalls_fit (s : Settings) : ∀ c ∈ sendAlertCalls s, c.Fits := by
  apply firstMissing_fits
  simp only [List.forall_mem_cons, FormatCall.fits_iff]
  decide

end CoinTool
