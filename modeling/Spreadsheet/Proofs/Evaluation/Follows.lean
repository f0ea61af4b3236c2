import Spreadsheet.Function.Arguments
import Spreadsheet.Proofs.Evaluation.Agreement

/-!
Two runs side by side. Of two actions the second follows the first if, whenever all areas that both runs
have referred to satisfy some condition, the second one gives the same and ends in a related state.
The areas are known at the end only; since areas are never forgotten, what has been referred to in any
part of a run is among them.
-/

namespace Spreadsheet

/-- What of a state two runs have in common. -/
structure SideBySide (τ : Type) where
  /-- The areas that have been referred to. -/
  areas : τ → List Area
  /-- The states that the two runs can be in. -/
  related : τ → τ → Prop

variable {τ α β : Type} {view : SideBySide τ} {P : Area → Prop}

/-- The second action follows the first one. -/
structure Follows (view : SideBySide τ) (P : Area → Prop) (x x' : StateM τ α) : Prop where
  grows : ∀ t, view.areas t ⊆ view.areas (x.run t).2
  grows' : ∀ t, view.areas t ⊆ view.areas (x'.run t).2
  agrees : ∀ t t', view.related t t' →
    (∀ a ∈ view.areas (x.run t).2, a ∈ view.areas (x'.run t').2 → P a) →
    (x'.run t').1 = (x.run t).1 ∧ view.related (x.run t).2 (x'.run t').2

namespace Follows

theorem pure (a : α) : Follows view P (pure a) (pure a) where
  grows _ := List.Subset.refl _
  grows' _ := List.Subset.refl _
  agrees _ _ ht _ := ⟨rfl, ht⟩

theorem pure_of_eq {a b : α} (h : b = a) : Follows view P (Pure.pure a) (Pure.pure b) := by
  subst h
  exact .pure b

theorem bind {x x' : StateM τ α} {f f' : α → StateM τ β} (hx : Follows view P x x')
    (hf : ∀ a, Follows view P (f a) (f' a)) : Follows view P (x >>= f) (x' >>= f') where
  grows t := List.Subset.trans (hx.grows t) ((hf (x.run t).1).grows (x.run t).2)
  grows' t := List.Subset.trans (hx.grows' t) ((hf (x'.run t).1).grows' (x'.run t).2)
  agrees t t' ht hP := by
    have hsub := (hf (x.run t).1).grows (x.run t).2
    have hsub' := (hf (x'.run t').1).grows' (x'.run t').2
    obtain ⟨hvalue, hrelated⟩ := hx.agrees t t' ht fun a ha ha' => hP a (hsub ha) (hsub' ha')
    have hrun : (x' >>= f').run t' = (f' (x.run t).1).run (x'.run t').2 := by
      rw [← hvalue]
      rfl
    rw [hrun] at hP ⊢
    exact (hf (x.run t).1).agrees _ _ hrelated hP

theorem map {x x' : StateM τ α} (f : α → β) (hx : Follows view P x x') :
    Follows view P (f <$> x) (f <$> x') where
  grows t := hx.grows t
  grows' t := hx.grows' t
  agrees t t' ht hP :=
    have h := hx.agrees t t' ht hP
    ⟨congrArg f h.1, h.2⟩

theorem mapM {γ : Type} {f f' : γ → StateM τ α} (hf : ∀ c, Follows view P (f c) (f' c)) (cs : List γ) :
    Follows view P (cs.mapM f) (cs.mapM f') := by
  induction cs with
  | nil => exact .pure []
  | cons c cs ih =>
    rw [List.mapM_cons, List.mapM_cons]
    exact (hf c).bind fun a => ih.bind fun as => .pure (a :: as)

/-- What functions do element by element follows what they do for each of the elements. -/
theorem elementwiseM {f f' : List Value → StateM τ Value} (hf : ∀ vs, Follows view P (f vs) (f' vs))
    (vs : List Value) : Follows view P (Function.elementwiseM f vs) (Function.elementwiseM f' vs) := by
  unfold Function.elementwiseM
  split
  · exact (mapM (fun c => mapM (fun r => hf _) _) _).bind fun columns => .pure (Value.array columns)
  · exact hf vs

end Follows

/-! ### What functions do -/

/-- The effects of two runs, with the same areas and with models that are related. -/
def effectsSideBySide (M : Simulation.Model → Simulation.Model → Prop) : SideBySide Effects where
  areas e := e.areas
  related e e' := e'.areas = e.areas ∧ M e.model e'.model

/-- What a function does for related models and times, and for stores that agree on the areas it refers to, is
related. -/
structure Function.Local (M : Simulation.Model → Simulation.Model → Prop) (T : Clock → Clock → Prop) (f : Function) :
    Prop where
  /-- Whether it is volatile is the same for related models. -/
  volatile : ∀ m m', M m m' → f.isVolatile m'.isActive = f.isVolatile m.isActive
  /-- If it asks for samples, models are related only if they are the same. -/
  samples : (∃ i, f.passing i = .samples) → ∀ m m', M m m' → m' = m
  apply : ∀ (site : CallSite) (store' : Store) (clock' : Clock) (vs : List Value), T site.clock clock' →
    Follows (effectsSideBySide M) (site.store.AgreeOn store') (f.apply site vs)
      (f.apply { site with store := store', clock := clock' } vs)

end Spreadsheet
