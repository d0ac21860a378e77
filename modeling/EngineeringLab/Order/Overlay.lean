/-
Records laid over each other.

Assigning one record after another to a common one (`Object.assign(target, source)`) keeps
for every key the value of the last record that has it. Where two records have different
values for a key, the order of the assignments decides; where no two do, it does not. So
the result is the same in every order exactly when the records agree
(`overlay_perm_iff`): each of two records that disagree can be made the last one.
-/
import Mathlib.Data.List.Perm.Basic

set_option autoImplicit false

namespace Overlay

variable {K V : Type*}

/-- The value of a key after the records were assigned in this order. -/
def overlay (fs : List (K → Option V)) (k : K) : Option V :=
  fs.reverse.findSome? fun f => f k

/-- No two of the records have different values for a key. -/
def Agree (fs : List (K → Option V)) : Prop :=
  ∀ f ∈ fs, ∀ g ∈ fs, ∀ k v w, f k = some v → g k = some w → v = w

variable {fs gs : List (K → Option V)} {f : K → Option V} {k : K} {v : V}

theorem overlay_cons : overlay (f :: fs) k = (overlay fs k).or (f k) := by
  unfold overlay
  rw [List.reverse_cons, List.findSome?_append]
  cases fs.reverse.findSome? (fun g => g k) <;> cases h : f k <;> simp [h]

/-- The last record decides the keys that it has. -/
theorem overlay_append_last (hf : f k = some v) : overlay (fs ++ [f]) k = some v := by
  unfold overlay
  rw [List.reverse_append, List.reverse_singleton, List.singleton_append,
    List.findSome?_cons_of_isSome (by rw [hf]; exact Option.isSome_some), hf]

/-- A value is one that some record has. -/
theorem exists_of_overlay (h : overlay fs k = some v) : ∃ f ∈ fs, f k = some v := by
  obtain ⟨f, hf, hv⟩ := List.exists_of_findSome?_eq_some h
  exact ⟨f, List.mem_reverse.mp hf, hv⟩

theorem overlay_isSome (hf : f ∈ fs) (hv : f k = some v) : ∃ w, overlay fs k = some w := by
  cases h : overlay fs k with
  | some w => exact ⟨w, rfl⟩
  | none =>
      have hnone := List.findSome?_eq_none_iff.mp h f (List.mem_reverse.mpr hf)
      rw [hv] at hnone
      cases hnone

/-- Among records that agree, any one decides the keys that it has. -/
theorem overlay_of_agree (hfs : Agree fs) (hf : f ∈ fs) (hv : f k = some v) :
    overlay fs k = some v := by
  obtain ⟨w, hw⟩ := overlay_isSome hf hv
  obtain ⟨g, hg, hgw⟩ := exists_of_overlay hw
  rw [hw, hfs f hf g hg k v w hv hgw]

/-- Records that agree may be assigned in any order. -/
theorem overlay_perm (hfs : Agree fs) (hperm : gs.Perm fs) : overlay gs = overlay fs := by
  have hgs : Agree gs := fun f hf g hg =>
    hfs f (hperm.mem_iff.mp hf) g (hperm.mem_iff.mp hg)
  funext k
  cases h : overlay fs k with
  | some v =>
      obtain ⟨f, hf, hv⟩ := exists_of_overlay h
      exact overlay_of_agree hgs (hperm.mem_iff.mpr hf) hv
  | none =>
      by_contra hsome
      obtain ⟨v, hv⟩ := Option.ne_none_iff_exists'.mp hsome
      obtain ⟨f, hf, hfv⟩ := exists_of_overlay hv
      rw [overlay_of_agree hfs (hperm.mem_iff.mp hf) hfv] at h
      cases h

/-- **The order matters exactly where two records disagree.** -/
theorem overlay_perm_iff : (∀ gs, gs.Perm fs → overlay gs = overlay fs) ↔ Agree fs := by
  refine ⟨fun hall => ?_, fun hfs gs hperm => overlay_perm hfs hperm⟩
  -- each record can be moved to the end, where it decides
  have hlast : ∀ f ∈ fs, ∀ k v, f k = some v → overlay fs k = some v := by
    intro f hf k v hv
    obtain ⟨l, r, rfl⟩ := List.append_of_mem hf
    have hperm : (l ++ r ++ [f]).Perm (l ++ f :: r) := by
      rw [List.append_assoc]
      exact (List.perm_append_singleton f r).append_left l
    rw [← hall _ hperm]
    exact overlay_append_last hv
  intro f hf g hg k v w hv hw
  have hsame := hlast f hf k v hv
  rw [hlast g hg k w hw] at hsame
  exact (Option.some.inj hsame).symm

end Overlay
