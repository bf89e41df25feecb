import Keybox.World

/-!
# Running actions

What an action on a state does, said step by step for the actions it is put together from: the
state after a step is the state before the next one, also when a step fails. What every step keeps,
the action keeps, and it fails in no way in which no step of it fails.
-/

namespace Keybox

section

variable {ε σ : Type} {α β : Type}

theorem run_get
    (s : σ) :
    (get : ExceptT ε (StateM σ) σ).run s = (.ok s, s) :=
  rfl

theorem run_modify
    (f : σ → σ)
    (s : σ) :
    (modify f : ExceptT ε (StateM σ) Unit).run s = (.ok (), f s) :=
  rfl

theorem run_bind
    (x : ExceptT ε (StateM σ) α)
    (f : α → ExceptT ε (StateM σ) β)
    (s : σ) :
    (x >>= f).run s =
      match x.run s with
      | (.ok a, s') => (f a).run s'
      | (.error e, s') => (.error e, s') := by
  change (match x.run s with | (r, s') => (ExceptT.bindCont f r).run s') = _
  rcases x.run s with ⟨r, s'⟩
  cases r with
  | ok a =>
      rfl
  | error e =>
      rfl

theorem run_bind_of_ok
    {x : ExceptT ε (StateM σ) α}
    {s s' : σ}
    {a : α}
    (h : x.run s = (.ok a, s'))
    (f : α → ExceptT ε (StateM σ) β) :
    (x >>= f).run s = (f a).run s' := by
  rw [run_bind, h]

theorem run_bind_of_error
    {x : ExceptT ε (StateM σ) α}
    {s s' : σ}
    {e : ε}
    (h : x.run s = (.error e, s'))
    (f : α → ExceptT ε (StateM σ) β) :
    (x >>= f).run s = (.error e, s') := by
  rw [run_bind, h]

theorem run_bind_eq_ok_iff
    {x : ExceptT ε (StateM σ) α}
    {f : α → ExceptT ε (StateM σ) β}
    {s s'' : σ}
    {b : β} :
    (x >>= f).run s = (.ok b, s'') ↔
      ∃ a s', x.run s = (.ok a, s') ∧ (f a).run s' = (.ok b, s'') := by
  constructor
  · intro h
    rw [run_bind] at h
    rcases hx : x.run s with ⟨r, s'⟩
    rw [hx] at h
    cases r with
    | ok a =>
        exact ⟨a, s', rfl, h⟩
    | error e =>
        cases h
  · rintro ⟨a, s', hx, hf⟩
    rw [run_bind_of_ok hx, hf]

theorem run_tryCatch
    (x : ExceptT ε (StateM σ) α)
    (handle : ε → ExceptT ε (StateM σ) α)
    (s : σ) :
    (tryCatch x handle).run s =
      match x.run s with
      | (.ok a, s') => (.ok a, s')
      | (.error e, s') => (handle e).run s' := by
  change (match x.run s with
    | (r, s') => (match r with
      | .ok a => (pure (.ok a) : StateM σ (Except ε α))
      | .error e => (handle e).run) s') = _
  rcases x.run s with ⟨r, s'⟩
  cases r with
  | ok a =>
      rfl
  | error e =>
      rfl

theorem run_tryCatch_of_ok
    {x : ExceptT ε (StateM σ) α}
    {s s' : σ}
    {a : α}
    (h : x.run s = (.ok a, s'))
    (handle : ε → ExceptT ε (StateM σ) α) :
    (tryCatch x handle).run s = (.ok a, s') := by
  rw [run_tryCatch, h]

theorem run_tryCatch_of_error
    {x : ExceptT ε (StateM σ) α}
    {s s' : σ}
    {e : ε}
    (h : x.run s = (.error e, s'))
    (handle : ε → ExceptT ε (StateM σ) α) :
    (tryCatch x handle).run s = (handle e).run s' := by
  rw [run_tryCatch, h]

/-- Handling that leaves the state as it is leaves the state of what is handled. -/
theorem snd_run_tryCatch
    {handle : ε → ExceptT ε (StateM σ) α}
    (hhandle : ∀ e s, ((handle e).run s).2 = s)
    (x : ExceptT ε (StateM σ) α)
    (s : σ) :
    ((tryCatch x handle).run s).2 = (x.run s).2 := by
  rw [run_tryCatch]
  rcases x.run s with ⟨r, s'⟩
  cases r with
  | ok a =>
      rfl
  | error e =>
      exact hhandle e s'

/-- An action that succeeds has one result. -/
theorem eq_of_run_ok
    {x : ExceptT ε (StateM σ) α}
    {s s₁ s₂ : σ}
    {a b : α}
    (h : x.run s = (.ok a, s₁))
    (h' : x.run s = (.ok b, s₂)) :
    a = b :=
  Except.ok.inj (Prod.mk.inj (h.symm.trans h')).1

theorem run_map_of_ok
    {x : ExceptT ε (StateM σ) α}
    {s s' : σ}
    {a : α}
    (h : x.run s = (.ok a, s'))
    (f : α → β) :
    (f <$> x).run s = (.ok (f a), s') := by
  rw [map_eq_pure_bind, run_bind_of_ok h]
  rfl

theorem run_map_of_error
    {x : ExceptT ε (StateM σ) α}
    {s s' : σ}
    {e : ε}
    (h : x.run s = (.error e, s'))
    (f : α → β) :
    (f <$> x).run s = (.error e, s') := by
  rw [map_eq_pure_bind, run_bind_of_error h]

/-! ## What actions keep -/

/-- A property of states that an action keeps, whether it succeeds or fails. -/
def Preserves
    (P : σ → Prop)
    (act : ExceptT ε (StateM σ) α) : Prop :=
  ∀ s, P s → P (act.run s).2

variable {P : σ → Prop}

theorem preserves_of_same
    {act : ExceptT ε (StateM σ) α}
    (h : ∀ s, (act.run s).2 = s) :
    Preserves P act := by
  intro s hs
  rwa [h]

theorem preserves_pure
    (a : α) :
    Preserves P (pure a : ExceptT ε (StateM σ) α) :=
  preserves_of_same fun _ => rfl

theorem preserves_throw
    (e : ε) :
    Preserves P (throw e : ExceptT ε (StateM σ) α) :=
  preserves_of_same fun _ => rfl

theorem preserves_get :
    Preserves P (get : ExceptT ε (StateM σ) σ) :=
  preserves_of_same fun _ => rfl

theorem preserves_modify
    {f : σ → σ}
    (h : ∀ s, P s → P (f s)) :
    Preserves P (modify f : ExceptT ε (StateM σ) Unit) :=
  h

theorem Preserves.bind
    {x : ExceptT ε (StateM σ) α}
    {f : α → ExceptT ε (StateM σ) β}
    (hx : Preserves P x)
    (hf : ∀ a, Preserves P (f a)) :
    Preserves P (x >>= f) := by
  intro s hs
  have hfirst := hx s hs
  rw [run_bind]
  rcases hrun : x.run s with ⟨r, s'⟩
  rw [hrun] at hfirst
  cases r with
  | ok a =>
      exact hf a s' hfirst
  | error e =>
      exact hfirst

theorem Preserves.map
    {x : ExceptT ε (StateM σ) α}
    (hx : Preserves P x)
    (f : α → β) :
    Preserves P (f <$> x) := by
  rw [map_eq_pure_bind]
  exact hx.bind fun a => preserves_pure (f a)

theorem Preserves.tryCatch
    {x : ExceptT ε (StateM σ) α}
    {handle : ε → ExceptT ε (StateM σ) α}
    (hx : Preserves P x)
    (hhandle : ∀ e, Preserves P (handle e)) :
    Preserves P (tryCatch x handle) := by
  intro s hs
  have hfirst := hx s hs
  rw [run_tryCatch]
  rcases hrun : x.run s with ⟨r, s'⟩
  rw [hrun] at hfirst
  cases r with
  | ok a =>
      exact hfirst
  | error e =>
      exact hhandle e s' hfirst

/-! ## How actions fail -/

/-- From states with a property, an action fails only with errors of a kind. -/
def FailsWith
    (P : σ → Prop)
    (Q : ε → Prop)
    (act : ExceptT ε (StateM σ) α) : Prop :=
  ∀ s, P s → ∀ e s', act.run s = (.error e, s') → Q e

variable {Q : ε → Prop}

theorem failsWith_pure
    (a : α) :
    FailsWith P Q (pure a : ExceptT ε (StateM σ) α) := by
  rintro s - e s' ⟨⟩

theorem failsWith_throw
    {e : ε}
    (he : Q e) :
    FailsWith P Q (throw e : ExceptT ε (StateM σ) α) := by
  rintro s - e' s' ⟨⟩
  exact he

theorem failsWith_get :
    FailsWith P Q (get : ExceptT ε (StateM σ) σ) := by
  rintro s - e s' ⟨⟩

theorem FailsWith.bind
    {x : ExceptT ε (StateM σ) α}
    {f : α → ExceptT ε (StateM σ) β}
    (hx : FailsWith P Q x)
    (hkeeps : Preserves P x)
    (hf : ∀ a, FailsWith P Q (f a)) :
    FailsWith P Q (x >>= f) := by
  intro s hs e s' h
  have hfirst := hkeeps s hs
  rw [run_bind] at h
  rcases hrun : x.run s with ⟨r, s₁⟩
  rw [hrun] at h hfirst
  cases r with
  | ok a =>
      exact hf a s₁ hfirst e s' h
  | error e₁ =>
      cases h
      exact hx s hs e _ hrun

theorem FailsWith.tryCatch
    {x : ExceptT ε (StateM σ) α}
    {handle : ε → ExceptT ε (StateM σ) α}
    (hx : FailsWith P Q x)
    (hkeeps : Preserves P x)
    (hhandle : ∀ e, Q e → FailsWith P Q (handle e)) :
    FailsWith P Q (tryCatch x handle) := by
  intro s hs e s' h
  have hfirst := hkeeps s hs
  rw [run_tryCatch] at h
  rcases hrun : x.run s with ⟨r, s₁⟩
  rw [hrun] at h hfirst
  cases r with
  | ok a =>
      cases h
  | error e₁ =>
      exact hhandle e₁ (hx s hs e₁ s₁ hrun) s₁ hfirst e s' h

end

namespace Act

theorem run_files
    {α : Type}
    (act : FileAct α)
    (w : World) :
    (files act).run w =
      match act.run w.tree with
      | (.ok a, t) => (.ok a, { w with tree := t })
      | (.error f, t) => (.error (.file f), { w with tree := t }) :=
  rfl

theorem run_files_of_ok
    {α : Type}
    {act : FileAct α}
    {w : World}
    {a : α}
    {t : FileTree}
    (h : act.run w.tree = (.ok a, t)) :
    (files act).run w = (.ok a, { w with tree := t }) := by
  rw [run_files, h]

theorem run_files_of_error
    {α : Type}
    {act : FileAct α}
    {w : World}
    {f : FileFault}
    {t : FileTree}
    (h : act.run w.tree = (.error f, t)) :
    (files act).run w = (.error (.file f), { w with tree := t }) := by
  rw [run_files, h]

theorem run_files_eq_ok_iff
    {α : Type}
    {act : FileAct α}
    {w w' : World}
    {a : α} :
    (files act).run w = (.ok a, w') ↔
      ∃ t, act.run w.tree = (.ok a, t) ∧ w' = { w with tree := t } := by
  constructor
  · intro h
    rw [run_files] at h
    rcases hact : act.run w.tree with ⟨r, t⟩
    rw [hact] at h
    cases r with
    | ok b =>
        cases h
        exact ⟨t, rfl, rfl⟩
    | error f =>
        cases h
  · rintro ⟨t, hact, rfl⟩
    exact run_files_of_ok hact

/-- An action on the files that changes none changes nothing. -/
theorem run_files_of_same
    {α : Type}
    {act : FileAct α}
    {w : World}
    (h : (act.run w.tree).2 = w.tree) :
    (files act).run w = ((act.run w.tree).1.mapError .file, w) := by
  rw [run_files]
  rcases hact : act.run w.tree with ⟨r, t⟩
  rw [hact] at h
  obtain rfl : t = w.tree := h
  cases r <;> rfl

end Act

end Keybox
