import Mathlib.Tactic.Common
/-!
# Machines driven by a schedule of actions

All nondeterminism of a component is carried by its actions: an action names who moves and
what the environment answers. A step is then a partial function, a run is a fold over a
schedule, and a property of every interleaving is a property of every schedule.
-/

namespace Geofence.Framework

/-- A machine over states `σ` and actions `α`; `none` marks an action the state does not enable. -/
structure Machine (σ α : Type*) where
  step : σ → α → Option σ

namespace Machine

variable {σ α : Type*} (M : Machine σ α)

/-- Run a schedule; the run is `none` as soon as one action is not enabled. -/
def run : σ → List α → Option σ
  | s, [] => some s
  | s, a :: as => (M.step s a).bind fun t => run t as

@[simp] theorem run_nil (s : σ) : M.run s [] = some s := rfl

theorem run_cons (s : σ) (a : α) (as : List α) :
    M.run s (a :: as) = (M.step s a).bind fun t => M.run t as := rfl

theorem run_cons_eq_some {s u : σ} {a : α} {as : List α} :
    M.run s (a :: as) = some u ↔ ∃ t, M.step s a = some t ∧ M.run t as = some u := by
  rw [run_cons, Option.bind_eq_some_iff]

theorem run_append (s : σ) (as bs : List α) :
    M.run s (as ++ bs) = (M.run s as).bind fun t => M.run t bs := by
  induction as generalizing s with
  | nil => rfl
  | cons a as ih =>
    rw [List.cons_append, run_cons, run_cons]
    cases M.step s a with
    | none => rfl
    | some t => exact ih t

theorem run_append_eq_some {s u : σ} {as bs : List α} :
    M.run s (as ++ bs) = some u ↔ ∃ t, M.run s as = some t ∧ M.run t bs = some u := by
  rw [run_append, Option.bind_eq_some_iff]

theorem exists_end {P : σ → Prop} [DecidablePred P] {s : σ} {as : List α}
    (h : (M.run s as).any (fun t => decide (P t)) = true) : ∃ t, M.run s as = some t ∧ P t := by
  obtain ⟨t, hrun, ht⟩ := (Option.any_eq_true ..).mp h
  exact ⟨t, hrun, of_decide_eq_true ht⟩

/-- A predicate kept by every step holds at the end of every run. -/
theorem run_invariant {I : σ → Prop} (hstep : ∀ s a t, I s → M.step s a = some t → I t)
    {s t : σ} {as : List α} (hs : I s) (hrun : M.run s as = some t) : I t := by
  induction as generalizing s with
  | nil =>
    cases hrun
    exact hs
  | cons a as ih =>
    obtain ⟨u, hu, hrest⟩ := M.run_cons_eq_some.mp hrun
    exact ih (hstep s a u hs hu) hrest

/-- A predicate of the schedule so far and the state it leads to, kept by every step. -/
theorem run_trace_invariant {I : List α → σ → Prop} {s t : σ} {as : List α} (hstart : I [] s)
    (hstep : ∀ before u a v, M.run s before = some u → I before u → M.step u a = some v →
      I (before ++ [a]) v)
    (hrun : M.run s as = some t) : I as t := by
  have hfrom : ∀ before u, M.run s before = some u → I before u → M.run u as = some t →
      I (before ++ as) t := by
    clear hrun
    induction as with
    | nil =>
      intro before u hu hI hrest
      cases hrest
      rw [List.append_nil]
      exact hI
    | cons a as ih =>
      intro before u hu hI hrest
      obtain ⟨v, hv, htail⟩ := M.run_cons_eq_some.mp hrest
      have hreach : M.run s (before ++ [a]) = some v :=
        M.run_append_eq_some.mpr ⟨u, hu, M.run_cons_eq_some.mpr ⟨v, hv, rfl⟩⟩
      rw [← List.singleton_append, ← List.append_assoc]
      exact ih (before ++ [a]) v hreach (hstep before u a v hu hI hv) htail
  exact hfrom [] s rfl hstart hrun

/-- Every step of the run is taken from a state where `G` admits its action. -/
def Meets (G : σ → α → Prop) : σ → List α → Prop
  | _, [] => True
  | s, a :: as => G s a ∧ ∀ t, M.step s a = some t → Meets G t as

/-- Whether a schedule meets a decidable guard is found by running it. -/
instance decidableMeets (G : σ → α → Prop) [∀ s a, Decidable (G s a)] :
    ∀ s as, Decidable (M.Meets G s as)
  | _, [] => isTrue trivial
  | s, a :: as =>
    have : Decidable (∀ t, M.step s a = some t → Meets M G t as) :=
      match M.step s a with
      | none => isTrue fun _ ht => nomatch ht
      | some t =>
        have := decidableMeets G t as
        decidable_of_iff (Meets M G t as)
          ⟨fun hm _ ht => Option.some.inj ht ▸ hm, fun hall => hall t rfl⟩
    inferInstanceAs (Decidable (G s a ∧ ∀ t, M.step s a = some t → Meets M G t as))

theorem meets_of_append {G : σ → α → Prop} {s : σ} {as bs : List α}
    (h : M.Meets G s (as ++ bs)) : M.Meets G s as := by
  induction as generalizing s with
  | nil => trivial
  | cons a as ih => exact ⟨h.1, fun t ht => ih (h.2 t ht)⟩

theorem meets_of_forall_mem {p : α → Prop} (s : σ) {as : List α} (h : ∀ a ∈ as, p a) :
    M.Meets (fun _ a => p a) s as := by
  induction as generalizing s with
  | nil => trivial
  | cons a as ih =>
    exact ⟨h a (by simp), fun t _ => ih t fun b hb => h b (List.mem_cons_of_mem a hb)⟩

/-- The invariant rule for runs whose steps all meet a guard. -/
theorem run_invariant_of_meets {G : σ → α → Prop} {I : σ → Prop}
    (hstep : ∀ s a t, I s → G s a → M.step s a = some t → I t)
    {s t : σ} {as : List α} (hs : I s) (hmeets : M.Meets G s as)
    (hrun : M.run s as = some t) : I t := by
  induction as generalizing s with
  | nil =>
    cases hrun
    exact hs
  | cons a as ih =>
    obtain ⟨u, hu, hrest⟩ := M.run_cons_eq_some.mp hrun
    exact ih (hstep s a u hs hmeets.1 hu) (hmeets.2 u hu) hrest

/-- `P` holds in every state the run reaches, the first one included. -/
def Always (P : σ → Prop) (s : σ) (as : List α) : Prop :=
  ∀ before t, before <+: as → M.run s before = some t → P t

theorem always_of_meets {G : σ → α → Prop} {I P : σ → Prop}
    (hstep : ∀ s a t, I s → G s a → M.step s a = some t → I t) (himp : ∀ s, I s → P s)
    {s : σ} {as : List α} (hs : I s) (hmeets : M.Meets G s as) : M.Always P s as := by
  rintro before t ⟨after, rfl⟩ hrun
  exact himp t (M.run_invariant_of_meets hstep hs (M.meets_of_append hmeets) hrun)

theorem exists_of_not_meets {G : σ → α → Prop} {s u : σ} {as : List α}
    (hmeets : ¬ M.Meets G s as) (hrun : M.run s as = some u) :
    ∃ before a after t v, as = before ++ a :: after ∧ M.Meets G s before ∧
      M.run s before = some t ∧ M.step t a = some v ∧ ¬ G t a := by
  induction as generalizing s with
  | nil => exact absurd trivial hmeets
  | cons a as ih =>
    obtain ⟨t, ht, hrest⟩ := M.run_cons_eq_some.mp hrun
    by_cases hG : G s a
    · have htail : ¬ M.Meets G t as := by
        intro hm
        apply hmeets
        refine ⟨hG, fun t' ht' => ?_⟩
        rw [ht] at ht'
        cases ht'
        exact hm
      obtain ⟨before, b, after, w, v, heq, hbefore, hw, hv, hbad⟩ := ih htail hrest
      refine ⟨a :: before, b, after, w, v, by rw [heq]; rfl, ⟨hG, fun t' ht' => ?_⟩,
        M.run_cons_eq_some.mpr ⟨t, ht, hw⟩, hv, hbad⟩
      rw [ht] at ht'
      cases ht'
      exact hbefore
    · exact ⟨[], a, as, s, t, rfl, trivial, rfl, ht, hG⟩

/-- Where every step the guard admits keeps an invariant that gives `P`, and every other step
breaks `P`, `P` holds along a run exactly when every step of it meets the guard. -/
theorem always_iff_meets {G : σ → α → Prop} {I P : σ → Prop}
    (hstep : ∀ s a t, I s → G s a → M.step s a = some t → I t) (himp : ∀ s, I s → P s)
    (hfault : ∀ s a t, I s → ¬ G s a → M.step s a = some t → ¬ P t)
    {s u : σ} {as : List α} (hs : I s) (hrun : M.run s as = some u) :
    M.Always P s as ↔ M.Meets G s as := by
  constructor
  · intro halways
    by_contra hmeets
    obtain ⟨before, a, after, t, v, heq, hbefore, ht, hv, hbad⟩ :=
      M.exists_of_not_meets hmeets hrun
    have hI : I t := M.run_invariant_of_meets hstep hs hbefore ht
    have hreach : M.run s (before ++ [a]) = some v :=
      M.run_append_eq_some.mpr ⟨t, ht, M.run_cons_eq_some.mpr ⟨v, hv, rfl⟩⟩
    have hpre : before ++ [a] <+: as := ⟨after, by rw [heq, List.append_assoc, List.singleton_append]⟩
    exact hfault t a v hI hbad hv (halways _ v hpre hreach)
  · exact M.always_of_meets hstep himp hs

theorem meets_iff_forall_mem {p : α → Prop} {s u : σ} {as : List α}
    (hrun : M.run s as = some u) : M.Meets (fun _ a => p a) s as ↔ ∀ a ∈ as, p a := by
  constructor
  · intro hmeets
    induction as generalizing s with
    | nil => simp
    | cons a as ih =>
      obtain ⟨t, ht, hrest⟩ := M.run_cons_eq_some.mp hrun
      intro b hb
      rcases List.mem_cons.mp hb with rfl | hb
      · exact hmeets.1
      · exact ih hrest (hmeets.2 t ht) b hb
  · exact M.meets_of_forall_mem s

/-- Where every fault-free step keeps an invariant that gives `P`, and every fault breaks `P`,
`P` holds along a run exactly when the schedule has no fault. -/
theorem always_iff_no_fault {fault : α → Bool} {I P : σ → Prop}
    (hstep : ∀ s a t, I s → fault a = false → M.step s a = some t → I t)
    (himp : ∀ s, I s → P s)
    (hfault : ∀ s a t, I s → fault a = true → M.step s a = some t → ¬ P t)
    {s u : σ} {as : List α} (hs : I s) (hrun : M.run s as = some u) :
    M.Always P s as ↔ ∀ a ∈ as, fault a = false := by
  rw [← M.meets_iff_forall_mem hrun]
  apply M.always_iff_meets hstep himp ?_ hs hrun
  intro s a t hI hbad hst
  exact hfault s a t hI (by simpa using hbad) hst

/-- The termination rule: where every step lowers a measure, a run is no longer than the measure it
uses up. -/
theorem run_length_le {p : α → Prop} {I : σ → Prop} {m : σ → ℕ}
    (hstep : ∀ s a t, I s → p a → M.step s a = some t → I t ∧ m t < m s)
    {s t : σ} {as : List α} (hp : ∀ a ∈ as, p a) (hs : I s) (hrun : M.run s as = some t) :
    as.length + m t ≤ m s := by
  induction as generalizing s with
  | nil =>
    cases hrun
    simp
  | cons a as ih =>
    obtain ⟨u, hu, hrest⟩ := M.run_cons_eq_some.mp hrun
    obtain ⟨hI, hlt⟩ := hstep s a u hs (hp a (by simp)) hu
    have htail := ih (fun b hb => hp b (List.mem_cons_of_mem a hb)) hI hrest
    rw [List.length_cons]
    omega

/-- Unwinding: where a kept action is matched by the same action on the other side and a dropped
one is not seen there, a run is matched by the run of its kept actions. -/
theorem run_filter {p : α → Prop} {keep : α → Bool} {R : σ → σ → Prop}
    (hkept : ∀ s r a s', p a → keep a = true → R s r → M.step s a = some s' →
      ∃ r', M.step r a = some r' ∧ R s' r')
    (hdropped : ∀ s r a s', p a → keep a = false → R s r → M.step s a = some s' → R s' r)
    {s s' r : σ} {as : List α} (hp : ∀ a ∈ as, p a) (hR : R s r) (hrun : M.run s as = some s') :
    ∃ r', M.run r (as.filter keep) = some r' ∧ R s' r' := by
  induction as generalizing s r with
  | nil =>
    cases hrun
    exact ⟨r, rfl, hR⟩
  | cons a as ih =>
    obtain ⟨t, ht, hrest⟩ := M.run_cons_eq_some.mp hrun
    have ha : p a := hp a (by simp)
    have has : ∀ b ∈ as, p b := fun b hb => hp b (List.mem_cons_of_mem a hb)
    cases hkeep : keep a with
    | false =>
      rw [List.filter_cons_of_neg (by simp [hkeep])]
      exact ih has (hdropped s r a t ha hkeep hR ht) hrest
    | true =>
      obtain ⟨u, hu, hRu⟩ := hkept s r a t ha hkeep hR ht
      obtain ⟨r', hr', hRr'⟩ := ih has hRu hrest
      rw [List.filter_cons_of_pos hkeep]
      exact ⟨r', M.run_cons_eq_some.mpr ⟨u, hu, hr'⟩, hRr'⟩

end Machine

end Geofence.Framework
