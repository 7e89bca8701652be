import Mathlib.Logic.Function.Basic
import CoinTool.Framework.TextCodec
import CoinTool.Common.Utils.Text

/-!
# `getrpc`

The command prints the `Basic` authorization of a user with a password.  It joins the two with a
colon, which it does not look for in either, so that a colon may stand on both sides of the cut.
-/

namespace CoinTool

open Framework

def getRpcHelp : List Str :=
  ["Command \"getrpc\" example :\n\n".toList, "getrpc rpcuser rpcpassword ...\n".toList,
    "getrpc \"thgy\" \"123\"\n".toList]

def rpcUserColonPass (rpcuser rpcpsw : Str) : Str := rpcuser ++ ":".toList ++ rpcpsw

/-- `encodeBase64` is the chain library's encoding of a string. -/
def getRPCAuthorization (encodeBase64 : Str → Str) (argv : List Str) : List Str :=
  if argv.length < cmdindex + 3 then getRpcHelp
  else
    let rpcuser := argv.getD (cmdindex + 1) []
    let rpcpsw := argv.getD (cmdindex + 2) []
    ["rpcuser=".toList ++ rpcuser ++ ", rpcpassword=".toList ++ rpcpsw ++ "\n".toList,
      "Basic ".toList ++ encodeBase64 (rpcUserColonPass rpcuser rpcpsw) ++ "\n".toList]

/-- Between these users the password of the first carries on what the second has in its name. -/
def SharesColon (rpcuser rpcpsw rpcuser' rpcpsw' : Str) : Prop :=
  ∃ mid, rpcuser' = rpcuser ++ ':' :: mid ∧ rpcpsw = mid ++ ':' :: rpcpsw'

theorem rpcUserColonPass_eq_of_shares {rpcuser rpcpsw rpcuser' rpcpsw' : Str}
    (h : SharesColon rpcuser rpcpsw rpcuser' rpcpsw') :
    rpcUserColonPass rpcuser rpcpsw = rpcUserColonPass rpcuser' rpcpsw' := by
  obtain ⟨mid, rfl, rfl⟩ := h
  simp [rpcUserColonPass]

theorem rpcUserColonPass_eq_iff (rpcuser rpcpsw rpcuser' rpcpsw' : Str) :
    rpcUserColonPass rpcuser rpcpsw = rpcUserColonPass rpcuser' rpcpsw' ↔
      (rpcuser = rpcuser' ∧ rpcpsw = rpcpsw') ∨ SharesColon rpcuser rpcpsw rpcuser' rpcpsw' ∨
        SharesColon rpcuser' rpcpsw' rpcuser rpcpsw := by
  constructor
  · intro hsame
    have hjoined : rpcuser ++ ':' :: rpcpsw = rpcuser' ++ ':' :: rpcpsw' := by
      simpa [rpcUserColonPass] using hsame
    rcases List.append_eq_append_iff.mp hjoined with ⟨rest, huser, hpsw⟩ | ⟨rest, huser, hpsw⟩
    · cases rest with
      | nil =>
          rw [List.append_nil] at huser
          exact Or.inl ⟨huser.symm, (List.cons.inj hpsw).2⟩
      | cons ch mid =>
          obtain ⟨rfl, hrest⟩ := List.cons.inj hpsw
          exact Or.inr (Or.inl ⟨mid, huser, hrest⟩)
    · cases rest with
      | nil =>
          rw [List.append_nil] at huser
          exact Or.inl ⟨huser, (List.cons.inj hpsw).2.symm⟩
      | cons ch mid =>
          obtain ⟨rfl, hrest⟩ := List.cons.inj hpsw
          exact Or.inr (Or.inr ⟨mid, huser, hrest⟩)
  · rintro (⟨rfl, rfl⟩ | hshares | hshares)
    · rfl
    · exact rpcUserColonPass_eq_of_shares hshares
    · exact (rpcUserColonPass_eq_of_shares hshares).symm

/-- Two calls authorize alike exactly when they name the same user and password, or when a colon in
the password of the one is the cut of the other. -/
theorem getRPCAuthorization_alike_iff {encodeBase64 : Str → Str}
    (hinjective : Function.Injective encodeBase64) (argv argv' : List Str)
    (hargs : cmdindex + 3 ≤ argv.length) (hargs' : cmdindex + 3 ≤ argv'.length) :
    let rpcuser := argv.getD (cmdindex + 1) []
    let rpcpsw := argv.getD (cmdindex + 2) []
    let rpcuser' := argv'.getD (cmdindex + 1) []
    let rpcpsw' := argv'.getD (cmdindex + 2) []
    (getRPCAuthorization encodeBase64 argv).getLast? =
        (getRPCAuthorization encodeBase64 argv').getLast? ↔
      (rpcuser = rpcuser' ∧ rpcpsw = rpcpsw') ∨ SharesColon rpcuser rpcpsw rpcuser' rpcpsw' ∨
        SharesColon rpcuser' rpcpsw' rpcuser rpcpsw := by
  intro rpcuser rpcpsw rpcuser' rpcpsw'
  have hline {args : List Str} (h : cmdindex + 3 ≤ args.length) :
      (getRPCAuthorization encodeBase64 args).getLast? =
        some ("Basic ".toList ++ encodeBase64 (rpcUserColonPass (args.getD (cmdindex + 1) [])
          (args.getD (cmdindex + 2) [])) ++ "\n".toList) := by
    rw [getRPCAuthorization, if_neg (Nat.not_lt.mpr h)]
    rfl
  rw [hline hargs, hline hargs', Option.some.injEq, List.append_left_inj, List.append_right_inj,
    hinjective.eq_iff, rpcUserColonPass_eq_iff]

def utf8Base64 (str : Str) : Str := base64Encode (String.ofList str).toByteArray.data.toList

theorem utf8Base64_injective : Function.Injective utf8Base64 := by
  intro str str' h
  have hbytes := congrArg base64Decode h
  rw [utf8Base64, utf8Base64, base64Decode_base64Encode, base64Decode_base64Encode] at hbytes
  have harray := ByteArray.ext (Array.toList_inj.mp hbytes)
  have hstring := String.toByteArray_inj.mp harray
  exact String.ofList_injective hstring

theorem getRPCAuthorization_alike_iff_sample :
    (getRPCAuthorization utf8Base64
        ["cointool".toList, "getrpc".toList, "a".toList, "b:c".toList]).getLast? =
      (getRPCAuthorization utf8Base64
        ["cointool".toList, "getrpc".toList, "a:b".toList, "c".toList]).getLast? :=
  (getRPCAuthorization_alike_iff utf8Base64_injective _ _ (by decide) (by decide)).mpr
    (Or.inr (Or.inl ⟨"b".toList, rfl, rfl⟩))

end CoinTool
