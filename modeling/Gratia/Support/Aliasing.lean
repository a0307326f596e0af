import Mathlib.Data.List.Basic

/-!
# Support — Aliasing

A map that is reached through the images of its keys.  Who writes under `k` means the entry of `k`;
what is written is the entry of `key k`, which other keys may share.
-/

namespace Support

variable {κ δ ν : Type} [DecidableEq κ] [DecidableEq δ]

def replay (start : κ → Option ν) (writes : List (κ × ν)) : κ → Option ν :=
  writes.foldl (fun map write => Function.update map write.1 (some write.2)) start

@[simp] theorem replay_cons (start : κ → Option ν) (write : κ × ν) (writes : List (κ × ν)) :
    replay start (write :: writes) = replay (Function.update start write.1 (some write.2)) writes :=
  rfl

theorem replay_append (start : κ → Option ν) (writes writes' : List (κ × ν)) :
    replay start (writes ++ writes') = replay (replay start writes) writes' :=
  List.foldl_append

theorem replay_congr {start start' : κ → Option ν} {k : κ} : ∀ {writes : List (κ × ν)},
    (start k = start' k ∨ ∃ v, (k, v) ∈ writes) → replay start writes k = replay start' writes k := by
  intro writes
  induction writes generalizing start start' with
  | nil =>
    rintro (h | ⟨v, hv⟩)
    · exact h
    · cases hv
  | cons write writes ih =>
    intro h
    rw [replay_cons, replay_cons]
    by_cases hk : k = write.1
    · subst hk
      exact ih (.inl (by rw [Function.update_self, Function.update_self]))
    · refine ih ?_
      rw [Function.update_of_ne hk, Function.update_of_ne hk]
      refine h.imp_right ?_
      rintro ⟨v, hv⟩
      rcases List.mem_cons.mp hv with rfl | hv
      · exact absurd rfl hk
      · exact ⟨v, hv⟩

theorem mem_of_replay {k : κ} {v : ν} : ∀ {writes : List (κ × ν)} {start : κ → Option ν},
    replay start writes k = some v → start k = some v ∨ (k, v) ∈ writes := by
  intro writes
  induction writes with
  | nil => exact fun h => .inl h
  | cons write writes ih =>
    intro start h
    rw [replay_cons] at h
    rcases ih h with h | h
    · by_cases hk : k = write.1
      · subst hk
        rw [Function.update_self] at h
        cases h
        exact .inr List.mem_cons_self
      · rw [Function.update_of_ne hk] at h
        exact .inl h
    · exact .inr (List.mem_cons_of_mem _ h)

/-- **An entry that no write reaches under another key** holds what was last written under its own.
-/
theorem replay_through (key : κ → δ) {start : κ → Option ν} {start' : δ → Option ν} {k : κ} :
    ∀ {writes : List (κ × ν)}, (∀ write ∈ writes, key write.1 = key k → write.1 = k) →
      start' (key k) = start k →
      replay start' (writes.map fun write => (key write.1, write.2)) (key k) =
        replay start writes k := by
  intro writes
  induction writes generalizing start start' with
  | nil => exact fun _ h => h
  | cons write writes ih =>
    intro hown hstart
    rw [List.map_cons, replay_cons, replay_cons]
    refine ih (fun w hw => hown w (List.mem_cons_of_mem _ hw)) ?_
    by_cases hk : k = write.1
    · subst hk
      rw [Function.update_self, Function.update_self]
    · have hkey : key k ≠ key write.1 :=
        fun h => hk (hown write List.mem_cons_self h.symm).symm
      rw [Function.update_of_ne hk, Function.update_of_ne hkey]
      exact hstart

end Support
