import Gratia.Support.Runs

/-!
# Network — Rate limiter

`RateLimiter` of `gratia-network/src/reputation.rs`.  At a call, what is left in the window of a peer
and an action are exactly the calls that were allowed in the last minute.  Times are in nanoseconds.
-/

namespace Gratia

open Support

def rateWindowSecs : ℤ := 60
def maxMessagesPerMinute : ℕ := 50

/-- `RATE_WINDOW_SECS` as a duration. -/
def rateWindow : ℤ := rateWindowSecs * 1_000_000_000

/-- `RateLimiter`; a window that is not there is entered empty when it is looked up. -/
structure RateLimiter where
  windows : String × String → List ℤ := fun _ => []
  limits : String → Option ℕ

structure RateCall where
  peerId : String
  action : String
  now : ℤ

namespace RateLimiter

def limit (l : RateLimiter) (action : String) : ℕ := (l.limits action).getD maxMessagesPerMinute

def checkRate (l : RateLimiter) (c : RateCall) : Bool × RateLimiter :=
  let windowStart := c.now - rateWindow
  let key := (c.peerId, c.action)
  let timestamps := (l.windows key).dropWhile fun front => front < windowStart
  if timestamps.length ≥ l.limit c.action then
    (false, { l with windows := Function.update l.windows key timestamps })
  else (true, { l with windows := Function.update l.windows key (timestamps ++ [c.now]) })

/-- A call, with the times of the allowed calls beside the limiter. -/
def step (s : RateLimiter × (String × String → List ℤ)) (c : RateCall) :
    Bool × RateLimiter × (String × String → List ℤ) :=
  let (allowed, l) := s.1.checkRate c
  let key := (c.peerId, c.action)
  (allowed, l, if allowed then Function.update s.2 key (s.2 key ++ [c.now]) else s.2)

def after (limits : String → Option ℕ) (calls : List RateCall) :
    RateLimiter × (String × String → List ℤ) := run step ({ limits := limits }, fun _ => []) calls

/-- How many of the times are in the window that begins at `start`. -/
def within (times : List ℤ) (start : ℤ) : ℕ :=
  times.countP fun t => start ≤ t ∧ t ≤ start + rateWindow

/-- What is known of a window and of the times of the allowed calls after some calls. -/
structure Exact (calls : List RateCall) (limit : ℕ) (window allowed : List ℤ) : Prop where
  sorted : window.Pairwise (· ≤ ·)
  past : ∀ t ∈ allowed, ∃ c ∈ calls, t = c.now
  sub : ∀ t ∈ window, t ∈ allowed
  counted : ∀ now, (∀ c ∈ calls, c.now ≤ now) → (window.filter fun t => now - rateWindow ≤ t) =
    allowed.filter fun t => now - rateWindow ≤ t
  bounded : ∀ start, within allowed start ≤ limit

variable {calls : List RateCall} {c : RateCall} {limit : ℕ}
  {window allowed : List ℤ}

theorem dropWhile_of_sorted {start : ℤ} (h : window.Pairwise (· ≤ ·)) :
    (window.dropWhile fun t => t < start) = window.filter fun t => start ≤ t := by
  induction window with
  | nil => rfl
  | cons t window ih =>
    obtain ⟨ht, h⟩ := List.pairwise_cons.mp h
    by_cases hlt : t < start
    · rw [List.dropWhile_cons_of_pos (by simpa using hlt), ih h,
        List.filter_cons_of_neg (by simpa using hlt)]
    · have hge : start ≤ t := not_lt.mp hlt
      rw [List.dropWhile_cons_of_neg (by simpa using hge), eq_comm, List.filter_eq_self]
      intro u hu
      rcases List.mem_cons.mp hu with rfl | hu
      · simpa using hge
      · simpa using hge.trans (ht u hu)

namespace Exact

/-- Time goes on, and what has left the window may be dropped. -/
theorem later (h : Exact calls limit window allowed) (c : RateCall) :
    Exact (calls ++ [c]) limit window allowed ∧
      Exact (calls ++ [c]) limit (window.filter fun t => c.now - rateWindow ≤ t) allowed := by
  have hpast : ∀ t ∈ allowed, ∃ c' ∈ calls ++ [c], t = c'.now := fun t ht =>
    (h.past t ht).imp fun c' hc => ⟨List.mem_append_left _ hc.1, hc.2⟩
  have hcounted : ∀ now, (∀ c' ∈ calls ++ [c], c'.now ≤ now) →
      (window.filter fun t => now - rateWindow ≤ t) = allowed.filter fun t => now - rateWindow ≤ t :=
    fun now hnow => h.counted now fun c' hc => hnow c' (List.mem_append_left _ hc)
  refine ⟨⟨h.sorted, hpast, h.sub, hcounted, h.bounded⟩, h.sorted.filter _, hpast,
    fun t ht => h.sub t (List.mem_of_mem_filter ht), fun now hnow => ?_, h.bounded⟩
  rw [List.filter_filter, ← hcounted now hnow]
  refine List.filter_congr fun t _ => ?_
  have hle := hnow c (by simp)
  simp only [← Bool.decide_and, decide_eq_decide]
  omega

/-- A call is allowed if there is room in the window that ends at it. -/
theorem allow (h : Exact calls limit window allowed) (hnow : ∀ c' ∈ calls, c'.now ≤ c.now)
    (hroom : (window.filter fun t => c.now - rateWindow ≤ t).length < limit) :
    Exact (calls ++ [c]) limit ((window.filter fun t => c.now - rateWindow ≤ t) ++ [c.now])
      (allowed ++ [c.now]) := by
  obtain ⟨hsorted, hpast, hsub, hcounted, hbounded⟩ := (h.later c).2
  have hle : ∀ t ∈ allowed, t ≤ c.now := by
    intro t ht
    obtain ⟨c', hc, rfl⟩ := h.past t ht
    exact hnow c' hc
  refine ⟨?_, ?_, ?_, fun now hlater => ?_, fun start => ?_⟩
  · exact List.pairwise_append.mpr ⟨hsorted, List.pairwise_singleton _ _, fun t ht u hu =>
      (List.mem_singleton.mp hu).symm ▸ hle t (hsub t ht)⟩
  · intro t ht
    rcases List.mem_append.mp ht with ht | ht
    · exact hpast t ht
    · exact ⟨c, by simp, List.mem_singleton.mp ht⟩
  · intro t ht
    exact List.mem_append.mpr ((List.mem_append.mp ht).imp_left (hsub t))
  · rw [List.filter_append, List.filter_append, hcounted now hlater]
  · rw [within, List.countP_append]
    by_cases hstart : start ≤ c.now ∧ c.now ≤ start + rateWindow
    · have hsame : allowed.countP (fun t => start ≤ t ∧ t ≤ start + rateWindow) ≤
          (allowed.filter fun t => c.now - rateWindow ≤ t).length := by
        rw [← List.countP_eq_length_filter]
        refine List.countP_mono_left fun t _ ht => ?_
        simp only [decide_eq_true_eq] at ht ⊢
        omega
      rw [← h.counted c.now hnow] at hsame
      rw [List.countP_singleton, if_pos (by simpa using hstart)]
      omega
    · rw [List.countP_singleton, if_neg (by simpa using hstart)]
      exact h.bounded start

variable {s : RateLimiter × (String × String → List ℤ)}

theorem step {key : String × String}
    (h : Exact calls (s.1.limit key.2) (s.1.windows key) (s.2 key))
    (hnow : ∀ c' ∈ calls, c'.now ≤ c.now) :
    Exact (calls ++ [c]) (s.1.limit key.2) ((step s c).2.1.windows key) ((step s c).2.2 key) := by
  unfold RateLimiter.step checkRate
  by_cases hkey : (c.peerId, c.action) = key
  · subst hkey
    simp only [dropWhile_of_sorted h.sorted]
    split
    · simpa using (h.later c).2
    next hroom => simpa using h.allow hnow (not_le.mp hroom)
  · have hne := Ne.symm hkey
    dsimp only
    split
    · simpa [hne] using (h.later c).1
    · simpa [hne] using (h.later c).1

theorem refused
    (h : Exact calls (s.1.limit c.action) (s.1.windows (c.peerId, c.action)) (s.2 (c.peerId, c.action)))
    (hnow : ∀ c' ∈ calls, c'.now ≤ c.now) (hno : (s.1.checkRate c).1 = false) :
    s.1.limit c.action ≤ within (s.2 (c.peerId, c.action)) (c.now - rateWindow) := by
  unfold checkRate at hno
  simp only [dropWhile_of_sorted h.sorted, h.counted c.now hnow] at hno
  split at hno
  next hfull =>
    rw [← List.countP_eq_length_filter] at hfull
    refine hfull.trans (List.countP_mono_left fun t ht hle => ?_)
    obtain ⟨c', hc, rfl⟩ := h.past t ht
    have := hnow c' hc
    simp only [decide_eq_true_eq] at hle ⊢
    omega
  next => cases hno

end Exact

theorem limits_step (s : RateLimiter × (String × String → List ℤ)) (c : RateCall) :
    (step s c).2.1.limits = s.1.limits := by
  unfold step checkRate
  dsimp only
  split <;> rfl

/-- **The limiter after a run.** -/
theorem exact_after (limits : String → Option ℕ)
    (hsorted : calls.Pairwise fun c c' => c.now ≤ c'.now) :
    (after limits calls).1.limits = limits ∧ ∀ key : String × String,
      Exact calls ((after limits calls).1.limit key.2) ((after limits calls).1.windows key)
        ((after limits calls).2 key) := by
  induction calls using List.reverseRecOn with
  | nil =>
    refine ⟨rfl, fun key => ⟨?_, ?_, ?_, fun _ _ => rfl, fun _ => Nat.zero_le _⟩⟩ <;>
      simp [after, run]
  | append_singleton calls c ih =>
    obtain ⟨hsorted, -, hnow⟩ := List.pairwise_append.mp hsorted
    obtain ⟨hlimits, h⟩ := ih hsorted
    have hstep : after limits (calls ++ [c]) = (step (after limits calls) c).2 := run_append _ _ _
    have hsame := limits_step (after limits calls) c
    rw [hstep]
    refine ⟨hsame.trans hlimits, fun key => ?_⟩
    rw [limit, hsame]
    exact (h key).step fun c' hc => hnow c' hc c List.mem_cons_self

/-- **The sliding window is exact.**  Calls come in the order of their times.  In every minute at
most as many calls of one peer and action are allowed as the limit says, and a call is refused only
if that many were allowed in the minute that ends at it. -/
theorem rate_window_exact (limits : String → Option ℕ) (calls : List RateCall)
    (hsorted : calls.Pairwise fun c c' => c.now ≤ c'.now) :
    (∀ peerId action start, within ((after limits calls).2 (peerId, action)) start ≤
      ({ limits := limits } : RateLimiter).limit action) ∧
    ∀ before c rest, calls = before ++ c :: rest →
      ((after limits before).1.checkRate c).1 = false →
      ({ limits := limits } : RateLimiter).limit c.action ≤
        within ((after limits before).2 (c.peerId, c.action)) (c.now - rateWindow) := by
  constructor
  · intro peerId action start
    obtain ⟨hlimits, h⟩ := exact_after limits hsorted
    have hbound := (h (peerId, action)).bounded start
    rwa [limit, hlimits] at hbound
  · rintro before c rest rfl hno
    obtain ⟨hbefore, -, hnow⟩ := List.pairwise_append.mp hsorted
    obtain ⟨hlimits, h⟩ := exact_after limits hbefore
    have hfull := (h (c.peerId, c.action)).refused (fun c' hc => hnow c' hc c List.mem_cons_self) hno
    rwa [limit, hlimits] at hfull

/-- A limit of one: of three calls a minute apart or less, the second is refused. -/
theorem rate_window_exact_three :
    let calls := [⟨"a", "tx", 0⟩, ⟨"a", "tx", 60_000_000_000⟩, ⟨"a", "tx", 60_000_000_001⟩]
    (after (fun _ => some 1) calls).2 ("a", "tx") = [0, 60_000_000_001] ∧
      within ((after (fun _ => some 1) calls).2 ("a", "tx")) 0 ≤ 1 :=
  ⟨by decide +kernel, (rate_window_exact (fun _ => some 1) _ (by decide)).1 "a" "tx" 0⟩

end RateLimiter

end Gratia
