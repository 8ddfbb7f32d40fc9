import Mathlib.Data.List.Perm.Basic

/-!
Lists that are gone through by steps that may fail, and lists in another order.
-/
namespace Telemetry

theorem mapM_map_of_forall {m : Type → Type} [Monad m] [LawfulMonad m] {α β γ : Type} {f : β → m γ}
    {g : α → β} {r : α → γ} {as : List α} (h : ∀ a ∈ as, f (g a) = pure (r a)) :
    (as.map g).mapM f = pure (as.map r) := by
  induction as with
  | nil => simp
  | cons a as ih =>
    obtain ⟨ha, hrest⟩ := List.forall_mem_cons.1 h
    simp [List.mapM_cons, ha, ih hrest]

/-- What has been written piece by piece is read back piece by piece. -/
theorem mapM_map_eq_self {m : Type → Type} [Monad m] [LawfulMonad m] {α β : Type} {f : β → m α}
    {g : α → β} {as : List α} (h : ∀ a ∈ as, f (g a) = pure a) : (as.map g).mapM f = pure as :=
  (mapM_map_of_forall h).trans (congrArg pure (List.map_id' as))

/-- A list in another order than an image is the image of a list in another order. -/
theorem exists_perm_of_perm_map {α β : Type} {f : α → β} {bs : List β} {as : List α}
    (h : bs.Perm (as.map f)) : ∃ cs : List α, cs.Perm as ∧ bs = cs.map f := by
  induction bs generalizing as with
  | nil => exact ⟨[], by simpa [eq_comm] using h.nil_eq, rfl⟩
  | cons b bs ih =>
    obtain ⟨a, ha, rfl⟩ := List.mem_map.1 (h.subset List.mem_cons_self)
    obtain ⟨before, after, rfl⟩ := List.append_of_mem ha
    have hmiddle : ((before ++ a :: after).map f).Perm (f a :: (before ++ after).map f) := by
      simp
    obtain ⟨cs, hperm, rfl⟩ := ih ((h.trans hmiddle).cons_inv)
    exact ⟨a :: cs, (hperm.cons a).trans List.perm_middle.symm, rfl⟩

end Telemetry
