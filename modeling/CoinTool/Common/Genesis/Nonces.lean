import CoinTool.Common.Genesis.Model

/-!
# Where the workers start

The workers read their nonce through a pointer to the one shared header.  A worker that has not
copied the header when the loop writes the nonce of the next worker starts from that one instead.
-/

namespace CoinTool

open Framework

/-- Every worker that has begun its search began with its own nonce, and workers with different
nonces began with different ones. -/
def OwnNonces (P : Search) (s : SearchState) : Prop :=
  (∀ i n, (s.workers i).start = some n → n = P.nonce i) ∧
    ∀ i j, P.nonce i ≠ P.nonce j → (s.workers i).start.isSome →
      (s.workers i).start ≠ (s.workers j).start

/-- The loop overwrites the shared nonce only with the nonce of every started worker that has still
to copy it. -/
def keepsPending (P : Search) (s : SearchState) (a : SearchAction) : Bool :=
  match a, s.main with
  | .main, .loop i =>
      decide (i < P.icpu → ∀ j < i, (s.workers j).pc = .copy → P.nonce j = P.nonce i)
  | _, _ => true

structure NonceInv (P : Search) (s : SearchState) : Prop where
  own : ∀ i n, (s.workers i).start = some n → n = P.nonce i
  pending : ∀ i, (s.workers i).pc = .copy → s.pb.nNonce = P.nonce i
  spawning : ∀ i, s.main = .spawn i → s.pb.nNonce = P.nonce i
  started : ∀ i, (s.workers i).pc = .copy → ∀ k, s.main = .loop k ∨ s.main = .spawn k → i < k

section

variable {P : Search} {s t : SearchState}

theorem nonceInv_initial (P : Search) : NonceInv P (.initial P) where
  own i n h := by cases h
  pending i h := by cases h
  spawning i h := by cases h
  started i h := by cases h

theorem nonceInv_getStep (h : NonceInv P s) {index : Nat} {now : Int}
    (hn : getStep P index now s = some t) : NonceInv P t := by
  obtain ⟨hmain, hpb, -⟩ := getStep_frame hn
  refine ⟨?_, ?_, ?_, ?_⟩
  · intro i n hi
    rcases getStep_start hn hi with hold | ⟨hpc, rfl⟩
    · exact h.own i n hold
    · -- what is copied is the shared nonce, which is still the worker's own
      exact h.pending i hpc
  · intro i hi
    rw [hpb]
    exact h.pending i (getStep_copy hn hi)
  · rw [hmain, hpb]
    exact h.spawning
  · intro i hi
    rw [hmain]
    exact h.started i (getStep_copy hn hi)

theorem NonceInv.write (h : NonceInv P s) {i : Nat} (hmain : s.main = .loop i)
    (hsame : ∀ j < i, (s.workers j).pc = .copy → P.nonce j = P.nonce i) :
    NonceInv P { s with main := .spawn i, pb := { s.pb with nNonce := P.nonce i } } := by
  have hstarted : ∀ j, (s.workers j).pc = .copy → j < i := by
    intro j hj
    exact h.started j hj i (Or.inl hmain)
  refine ⟨h.own, ?_, ?_, ?_⟩
  · intro j hj
    exact (hsame j (hstarted j hj) hj).symm
  · intro k hk
    cases hk
    rfl
  · intro j hj k hk
    rcases hk with hk | hk <;> cases hk
    exact hstarted j hj

theorem NonceInv.spawn (h : NonceInv P s) {i : Nat} (hmain : s.main = .spawn i) :
    NonceInv P { s.setWorker i { s.workers i with pc := .copy } with main := .loop (i + 1) } := by
  have hnonce := h.spawning i hmain
  refine ⟨?_, ?_, ?_, ?_⟩
  · intro j n hj
    by_cases he : j = i
    · subst j
      exact h.own i n (by simpa using hj)
    · exact h.own j n (by simpa [s.setWorker_ne i _ he] using hj)
  · intro j hj
    by_cases he : j = i
    · subst j
      exact hnonce
    · exact h.pending j (by simpa [s.setWorker_ne i _ he] using hj)
  · intro k hk
    cases hk
  · intro j hj k hk
    rcases hk with hk | hk <;> cases hk
    by_cases he : j = i
    · omega
    · have hlt := h.started j (by simpa [s.setWorker_ne i _ he] using hj) i (Or.inr hmain)
      omega

theorem NonceInv.leave (h : NonceInv P s) (main : MainPc) (hloop : ∀ k, main ≠ .loop k)
    (hspawn : ∀ k, main ≠ .spawn k) : NonceInv P { s with main := main } := by
  refine ⟨h.own, h.pending, fun k hk => absurd hk (hspawn k), ?_⟩
  intro j _ k hk
  rcases hk with hk | hk
  · exact absurd hk (hloop k)
  · exact absurd hk (hspawn k)

theorem nonceInv_findGenesisStep (h : NonceInv P s) (hok : keepsPending P s .main = true)
    (hn : findGenesisStep P s = some t) : NonceInv P t := by
  rcases findGenesisStep_cases hn with ⟨i, hmain, hi, rfl⟩ | ⟨i, hmain, rfl⟩ | ⟨i, hmain, rfl⟩ |
    ⟨i, hmain, -, rfl⟩ | ⟨i, hmain, -, rfl⟩
  · simp only [keepsPending, hmain, decide_eq_true_eq] at hok
    exact h.write hmain (hok hi)
  · exact h.leave (.join 0) (by simp) (by simp)
  · exact h.spawn hmain
  · exact h.leave (.join (i + 1)) (by simp) (by simp)
  · exact h.leave .returned (by simp) (by simp)

theorem NonceInv.ownNonces (h : NonceInv P s) : OwnNonces P s := by
  refine ⟨h.own, ?_⟩
  intro i j hne hi heq
  obtain ⟨n, hn⟩ := Option.isSome_iff_exists.mp hi
  have hown := h.own i n hn
  rw [heq] at hn
  exact hne (hown.symm.trans (h.own j n hn))

theorem ownNonces_of_keepsPending
    (hs : (findGenesis P).Reach (fun s a => keepsPending P s a = true) s) : OwnNonces P s := by
  have hinv : NonceInv P s := by
    apply hs.invariant
    · intro s hs
      rw [hs]
      exact nonceInv_initial P
    · intro s a t _ h hok hn
      cases a with
      | main => exact nonceInv_findGenesisStep h hok hn
      | worker index now => exact nonceInv_getStep h hn
  exact hinv.ownNonces

theorem exists_stale_nonce (hs : (findGenesis P).Reachable s) {a : SearchAction}
    (hbad : keepsPending P s a = false) :
    ∃ t, (findGenesis P).Reachable t ∧ ¬ OwnNonces P t := by
  unfold keepsPending at hbad
  split at hbad
  · rename_i i hmain
    simp only [decide_eq_false_iff_not, not_forall] at hbad
    obtain ⟨hi, j, _, hpc, hne⟩ := hbad
    let u : SearchState := { s with main := .spawn i, pb := { s.pb with nNonce := P.nonce i } }
    have hwrite : (findGenesis P).next s .main = some u := by
      simp [findGenesis, findGenesisStep, hmain, hi, u]
    let w : Worker :=
      { u.workers j with pc := .offset, pb := u.pb, start := some (P.nonce i) }
    have hcopy : (findGenesis P).next u (.worker j 0) = some (u.setWorker j w) := by
      simp [findGenesis, getStep, hpc, w, u]
    refine ⟨u.setWorker j w, .next (.next hs trivial hwrite) trivial hcopy, ?_⟩
    intro hown
    have hstart : ((u.setWorker j w).workers j).start = some (P.nonce i) := by simp [w]
    exact hne (hown.1 j _ hstart).symm
  · cases hbad

end

/-- In every run in which the loop never overwrites a nonce that a started worker has still to
copy, each worker begins its search with its own nonce; and any step that does overwrite one can be
followed by a worker that begins with another worker's nonce. -/
theorem findGenesis_own_nonces (P : Search) :
    (∀ s, (findGenesis P).Reach (fun s a => keepsPending P s a = true) s → OwnNonces P s) ∧
      ∀ s a, (findGenesis P).Reachable s → keepsPending P s a = false →
        ∃ t, (findGenesis P).Reachable t ∧ ¬ OwnNonces P t :=
  ⟨fun _ hs => ownNonces_of_keepsPending hs, fun _ _ hs hbad => exists_stale_nonce hs hbad⟩

def twoNonces : Search where
  header := ⟨1, 0, 0, 1, 1526947200, 0x207fffff, 1⟩
  icpu := 2
  getRandHash i := BitVec.ofNat 256 (i + 1)
  getHash h := h.nNonce
  setCompact nBits := nBits.zeroExtend 256

theorem findGenesis_own_nonces_twoNonces :
    ∃ s, (findGenesis twoNonces).execWhile (fun s a => keepsPending twoNonces s a = true)
        (.initial twoNonces) [.main, .main, .worker 0 5, .main, .main, .worker 1 5] = some s ∧
      (s.workers 0).start.isSome ∧ (s.workers 1).start.isSome ∧ OwnNonces twoNonces s := by
  obtain ⟨s, hexec, hend⟩ := Machine.execWhile_exists (findGenesis twoNonces)
    (fun s a => keepsPending twoNonces s a = true) (.initial twoNonces)
    [.main, .main, .worker 0 5, .main, .main, .worker 1 5]
    (fun s => (s.workers 0).start.isSome ∧ (s.workers 1).start.isSome) (by decide)
  simp only [decide_eq_true_eq] at hend
  exact ⟨s, hexec, hend.1, hend.2, (findGenesis_own_nonces twoNonces).1 s
    (Machine.Reach.execWhile (.start rfl) hexec)⟩

/-- Worker 0 copies the header only after the loop has written the nonce of worker 1. -/
theorem findGenesis_shares_nonce :
    ¬ ∀ (P : Search) (s : SearchState), (findGenesis P).Reachable s → OwnNonces P s := by
  intro h
  obtain ⟨s, hexec, hend⟩ := Machine.exec_exists (findGenesis twoNonces) (.initial twoNonces)
    [.main, .main, .main, .main, .worker 0 5, .worker 1 5]
    (fun s => (s.workers 0).start = (s.workers 1).start ∧ (s.workers 0).start.isSome) (by decide)
  simp only [decide_eq_true_eq] at hend
  have hown := h twoNonces s (Machine.Reachable.exec (.start rfl) hexec)
  exact hown.2 0 1 (by decide) hend.2 hend.1

end CoinTool
