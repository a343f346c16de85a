import Mathlib.Init

namespace ApTelemetry.Lib

/-- A loop that can fault runs over its whole input when an invariant, which may
speak of the input consumed so far, carries every iteration through. -/
theorem foldlM_invariant {σ α ε : Type} {f : σ → α → Except ε σ} (inv : List α → σ → Prop)
    (step : ∀ done s a, inv done s → ∃ t, f s a = .ok t ∧ inv (done ++ [a]) t)
    (done : List α) {s : σ} (h : inv done s) (xs : List α) :
    ∃ t, xs.foldlM f s = .ok t ∧ inv (done ++ xs) t := by
  induction xs generalizing done s with
  | nil => exact ⟨s, rfl, by rwa [List.append_nil]⟩
  | cons a rest ih =>
    obtain ⟨t, ht, hinv⟩ := step done s a h
    obtain ⟨u, hu, hend⟩ := ih (done ++ [a]) hinv
    refine ⟨u, ?_, by simpa using hend⟩
    rw [List.foldlM_cons, ht]
    exact hu

/-- The same for a loop that knows the position of its item. -/
theorem foldlM_zipIdx {σ α ε : Type} {f : σ → α × Nat → Except ε σ} (inv : Nat → σ → Prop)
    (xs : List α) (n : Nat)
    (step : ∀ k s a, xs[k]? = some a → inv (n + k) s →
      ∃ t, f s (a, n + k) = .ok t ∧ inv (n + k + 1) t)
    {s : σ} (h : inv n s) :
    ∃ t, (xs.zipIdx n).foldlM f s = .ok t ∧ inv (n + xs.length) t := by
  induction xs generalizing n s with
  | nil => exact ⟨s, rfl, h⟩
  | cons a rest ih =>
    obtain ⟨t, ht, hinv⟩ := step 0 s a rfl h
    have hstep : ∀ k s b, rest[k]? = some b → inv (n + 1 + k) s →
        ∃ t, f s (b, n + 1 + k) = .ok t ∧ inv (n + 1 + k + 1) t := by
      intro k s b hb hs
      have hnext := step (k + 1) s b hb
      rw [← Nat.add_assoc, Nat.add_right_comm n k 1] at hnext
      exact hnext hs
    obtain ⟨u, hu, hend⟩ := ih (n + 1) hstep hinv
    refine ⟨u, ?_, ?_⟩
    · rw [List.zipIdx_cons, List.foldlM_cons]
      exact (congrArg (fun e => e >>= fun t => (rest.zipIdx (n + 1)).foldlM f t) ht).trans hu
    · rwa [List.length_cons, ← Nat.add_assoc, Nat.add_right_comm]

/-- And for a loop that counts. -/
theorem foldlM_range {σ ε : Type} {f : σ → Nat → Except ε σ} (inv : Nat → σ → Prop) (n : Nat)
    (step : ∀ k s, k < n → inv k s → ∃ t, f s k = .ok t ∧ inv (k + 1) t)
    {s : σ} (h : inv 0 s) : ∃ t, (List.range n).foldlM f s = .ok t ∧ inv n t := by
  induction n with
  | zero => exact ⟨s, rfl, h⟩
  | succ n ih =>
    obtain ⟨t, ht, hinv⟩ := ih fun k s hk => step k s (Nat.lt_succ_of_lt hk)
    obtain ⟨u, hu, hend⟩ := step n t (Nat.lt_succ_self n) hinv
    refine ⟨u, ?_, hend⟩
    rw [List.range_succ, List.foldlM_append, ht]
    simp [bind, Except.bind, hu, pure, Except.pure]

/-- A guarded state machine. `enabled` is what the environment may do next,
`exec` is the code of that action, which can fault. -/
structure Machine (σ α ε : Type) where
  start : σ
  enabled : σ → α → Prop
  exec : σ → α → Except ε σ

namespace Machine

variable {σ α ε : Type} (M : Machine σ α ε)

inductive Reachable : σ → Prop
  | start : Reachable M.start
  | step {s t : σ} (a : α) (before : Reachable s) (allowed : M.enabled s a)
      (runs : M.exec s a = .ok t) : Reachable t

/-- An invariant that also rules out faults: every allowed action from a state
where it holds runs through and keeps it. -/
structure Inductive (inv : σ → Prop) : Prop where
  start : inv M.start
  step : ∀ s a, inv s → M.enabled s a → ∃ t, M.exec s a = .ok t ∧ inv t

/-- Some run from here ends in an allowed action that faults. -/
inductive CanFault (fault : ε) : σ → Prop
  | now {s : σ} (a : α) (allowed : M.enabled s a) (faults : M.exec s a = .error fault) :
    CanFault fault s
  | later {s t : σ} (a : α) (allowed : M.enabled s a) (runs : M.exec s a = .ok t)
      (after : CanFault fault t) : CanFault fault s

/-- The same machine under an environment that keeps to `guard`. -/
def restrict (guard : σ → α → Prop) : Machine σ α ε :=
  { M with enabled := fun s a => M.enabled s a ∧ guard s a }

instance {guard : σ → α → Prop} (s : σ) (a : α) [Decidable (M.enabled s a)]
    [Decidable (guard s a)] : Decidable ((M.restrict guard).enabled s a) :=
  inferInstanceAs (Decidable (M.enabled s a ∧ guard s a))

variable {M}

theorem Reachable.of_restrict {guard : σ → α → Prop} {s : σ}
    (h : (M.restrict guard).Reachable s) : M.Reachable s := by
  induction h with
  | start => exact .start
  | step a _ allowed runs ih => exact ih.step a allowed.1 runs

theorem Inductive.reachable {inv : σ → Prop} (h : M.Inductive inv) {s : σ}
    (hr : M.Reachable s) : inv s := by
  induction hr with
  | start => exact h.start
  | step a _ allowed runs ih =>
    obtain ⟨t, ht, hinv⟩ := h.step _ a ih allowed
    rw [runs] at ht
    exact Except.ok.inj ht ▸ hinv

theorem Inductive.runs {inv : σ → Prop} (h : M.Inductive inv) {s : σ}
    (hr : M.Reachable s) (a : α) (allowed : M.enabled s a) :
    ∃ t, M.exec s a = .ok t := by
  obtain ⟨t, ht, _⟩ := h.step s a (h.reachable hr) allowed
  exact ⟨t, ht⟩

/-- A guard that holds by itself in every state of an invariant costs nothing. -/
theorem Inductive.of_restrict {inv : σ → Prop} (guard : σ → α → Prop)
    (h : (M.restrict guard).Inductive inv)
    (hg : ∀ s a, inv s → M.enabled s a → guard s a) : M.Inductive inv :=
  ⟨h.start, fun s a hs ha => h.step s a hs ⟨ha, hg s a hs ha⟩⟩

/-- A loop over actions that are all allowed is a run. -/
theorem Reachable.foldlM {actions : List α} (allowed : ∀ s, ∀ a ∈ actions, M.enabled s a) {s t : σ}
    (hs : M.Reachable s) (h : actions.foldlM M.exec s = .ok t) : M.Reachable t := by
  induction actions generalizing s with
  | nil => exact Except.ok.inj h ▸ hs
  | cons a rest ih =>
    cases hrun : M.exec s a with
    | error fault =>
      rw [List.foldlM_cons, hrun] at h
      cases h
    | ok u =>
      rw [List.foldlM_cons, hrun] at h
      exact ih (fun s b hb => allowed s b (List.mem_cons_of_mem _ hb))
        (hs.step a (allowed s a (List.mem_cons_self ..)) hrun) h

variable (M) in
/-- Taking the actions listed, as long as each is allowed and does not fault. -/
def follow [∀ s a, Decidable (M.enabled s a)] : σ → List α → Option σ
  | s, [] => some s
  | s, a :: rest =>
    if M.enabled s a then
      match M.exec s a with
      | .ok t => follow t rest
      | .error _ => none
    else none

theorem follow_reachable [∀ s a, Decidable (M.enabled s a)] {s t : σ} {actions : List α}
    (hs : M.Reachable s) (h : M.follow s actions = some t) : M.Reachable t := by
  induction actions generalizing s with
  | nil => exact Option.some.inj h ▸ hs
  | cons a rest ih =>
    simp only [follow] at h
    split at h
    · split at h
      · exact ih (hs.step a (by assumption) (by assumption)) h
      · cases h
    · cases h

theorem follow_one [∀ s a, Decidable (M.enabled s a)] {s t : σ} {a : α}
    (h : M.follow s [a] = some t) : M.exec s a = .ok t := by
  simp only [follow] at h
  split at h
  · split at h
    · rename_i hrun
      exact hrun.trans (congrArg Except.ok (Option.some.inj h))
    · cases h
  · cases h

theorem follow_map_reachable [∀ s a, Decidable (M.enabled s a)] {β : Type} {f : σ → β} {v : β}
    {actions : List α} (h : (M.follow M.start actions).map f = some v) :
    ∃ s, M.Reachable s ∧ f s = v := by
  obtain ⟨s, hs, hv⟩ := Option.map_eq_some_iff.mp h
  exact ⟨s, follow_reachable .start hs, hv⟩

variable (M) in
/-- What every action of a run from here does meets `good`. The run ends before
an action that is not allowed, and with one that faults. -/
def Throughout (good : σ → α → Except ε σ → Prop) : σ → List α → Prop
  | _, [] => True
  | s, a :: rest => M.enabled s a →
    good s a (M.exec s a) ∧ ∀ t, M.exec s a = .ok t → Throughout good t rest

/-- Runs that are good from the start on are good from every reachable state on. -/
theorem throughout_reachable {good : σ → α → Except ε σ → Prop}
    (h : ∀ actions, M.Throughout good M.start actions) {s : σ} (hr : M.Reachable s)
    (actions : List α) : M.Throughout good s actions := by
  induction hr generalizing actions with
  | start => exact h actions
  | step a _ allowed runs ih => exact (ih (a :: actions) allowed).2 _ runs

/-- Whole runs are good exactly if every action meets the guard, when this is so
of one action and the guard keeps the invariant it rests on. -/
theorem throughout_iff (inv : σ → Prop) {good : σ → α → Except ε σ → Prop} {guard : σ → α → Prop}
    (step : ∀ s a, inv s → M.enabled s a → (good s a (M.exec s a) ↔ guard s a))
    (keep : ∀ s a t, inv s → M.enabled s a → guard s a → M.exec s a = .ok t → inv t)
    {s : σ} (h : inv s) (actions : List α) :
    M.Throughout good s actions ↔ M.Throughout (fun s a _ => guard s a) s actions := by
  induction actions generalizing s with
  | nil => exact Iff.rfl
  | cons a rest ih =>
    refine imp_congr_right fun ha => ?_
    rw [step s a h ha]
    exact and_congr_right fun hg => forall_congr' fun t => imp_congr_right fun ht =>
      ih (keep s a t h ha hg ht)

end Machine

end ApTelemetry.Lib
