import TypedImp.Proofs.Execution.Judgment

/-! Guards on watched runs. A guard says in which worlds a run may begin, what may be seen at its moments, and how
    the world in which it ends or stops goes with the one in which it began. A guard that allows the parts of a
    run allows the run. -/

namespace TypedImp
namespace Execution
open Watched (step giving)

variable {α β : Type}

/-- The world at the end of a run. -/
def Course.world (c : Course α) : World :=
  match c.result with
  | .ok _ w => w
  | .error _ w => w

namespace Course
variable {frame : Frame} {r : Watched α} {w : World}

theorem world_inFrame : (r.inFrame frame w).world =
    let w' := (r { w with store := w.store.push frame }).world
    { w' with store := w'.store.dropFrame } := by
  show (Course.mk _ (Run.inFrame frame r.run w)).world = _
  rw [Run.inFrame_eq, Watched.run, world]
  cases h : (r { w with store := w.store.push frame }).result with
  | ok a w' => simp only [world, h]
  | error e w' => simp only [world, h]

theorem moments_inFrame : (r.inFrame frame w).moments =
    ⟨{ w with store := w.store.push frame }, []⟩ :: (r { w with store := w.store.push frame }).moments ++
      [⟨let w' := (r { w with store := w.store.push frame }).world
        { w' with store := w'.store.dropFrame }, []⟩] := by
  rw [← world_inFrame]
  show _ ++ [Moment.mk ((Run.inFrame frame r.run).run w).world []] = _
  rw [Run.run]
  show _ = _ ++ [Moment.mk (Course.mk _ (Run.inFrame frame r.run w)).world []]
  rw [world]
  cases Run.inFrame frame r.run w with
  | ok a w' => rfl
  | error e w' => rfl

theorem result_of_inFrame {a : α} {w' : World} (h : (r.inFrame frame w).result = .ok a w') :
    ∃ w'', (r { w with store := w.store.push frame }).result = .ok a w'' := by
  have h : Run.inFrame frame r.run w = .ok a w' := h
  rw [Run.inFrame_eq, Watched.run] at h
  cases hr : (r { w with store := w.store.push frame }).result with
  | ok b w'' =>
    rw [hr] at h
    cases h
    exact ⟨w'', rfl⟩
  | error e w'' =>
    rw [hr] at h
    cases h

theorem world_eq {r : Run α} {watched : Watched α} (h : watched.run = r) (w : World) :
    (watched w).world = (r.run w).world := by
  subst h
  unfold world Run.run Watched.run
  cases (watched w).result with
  | ok a w' => rfl
  | error e w' => rfl

end Course

structure Guard where
  start : World → Prop
  seen : Moment → Prop
  keeps : World → World → Prop
  refl {w : World} : start w → keeps w w
  trans {u v w : World} : keeps u v → keeps v w → keeps u w
  next {w w' : World} : start w → keeps w w' → start w'

namespace Guard
variable {G : Guard} {P : α → Prop} {Q : β → Prop} {w w' : World}

/-- A course from `w` is as the guard wants it, and `P` describes its answer, if it has one. -/
structure Holds (G : Guard) (w : World) (c : Course α) (P : α → Prop) : Prop where
  keeps : G.keeps w c.world
  seen : ∀ m ∈ c.moments, G.seen m
  answer : ∀ a w', c.result = .ok a w' → P a

/-- Every course of the run is as the guard wants it. -/
def Allows (G : Guard) (r : Watched α) (P : α → Prop) : Prop := ∀ w, G.start w → G.Holds w (r w) P

theorem holds_of_ok {r : Run α} {a : α} (h : r w = .ok a w') (hw : G.keeps w w') (hseen : G.seen ⟨w', []⟩)
    (ha : P a) : G.Holds w (step r w) P where
  keeps := by rwa [Course.world, step, h]
  seen m hm := by
    rw [step, Run.run_of_ok h] at hm
    exact List.mem_singleton.mp hm ▸ hseen
  answer b w'' hb := by
    rw [step, h] at hb
    cases hb
    exact ha

theorem holds_of_error {r : Run α} {e : Stop} (h : r w = .error e w') (hw : G.keeps w w')
    (hseen : G.seen ⟨w', []⟩) : G.Holds w (step r w) P where
  keeps := by rwa [Course.world, step, h]
  seen m hm := by
    rw [step, Run.run_of_error h] at hm
    exact List.mem_singleton.mp hm ▸ hseen
  answer b w'' hb := by
    rw [step, h] at hb
    cases hb

theorem holds_endIn {r : Run α} {answer : Except Stop α} (h : r w = endIn answer w') (hw : G.keeps w w')
    (hseen : G.seen ⟨w', []⟩) (ha : ∀ a, answer = .ok a → P a) : G.Holds w (step r w) P := by
  cases answer with
  | ok a => exact holds_of_ok h hw hseen (ha a rfl)
  | error e => exact holds_of_error h hw hseen

/-- A guard that lets everything begun be seen, and that does not look at the events. -/
theorem allows_silent {r : Run α} (h : Silent r P)
    (hevents : ∀ w, G.start w → ∀ events, G.keeps w { w with events := events } ∧
      G.seen ⟨{ w with events := events }, []⟩) : G.Allows (step r) P := by
  obtain ⟨answer, hP, hr⟩ := h
  intro w hw
  obtain ⟨events, hrun⟩ := hr w
  obtain ⟨hkeeps, hseen⟩ := hevents w hw events
  exact holds_endIn hrun hkeeps hseen hP

theorem allows_pure {a : α} (ha : P a) : G.Allows (pure a) P := fun w hw =>
  ⟨G.refl hw, fun _ hm => (nomatch hm), fun b w' hb => by cases hb; exact ha⟩

theorem Allows.bind {r : Watched α} {k : α → Watched β} (h : G.Allows r P) (hk : ∀ a, P a → G.Allows (k a) Q) :
    G.Allows (r >>= k) Q := by
  intro w hw
  obtain ⟨hkeeps, hseen, hanswer⟩ := h w hw
  simp only [Course.world] at hkeeps
  cases hr : (r w).result with
  | ok a w' =>
    rw [hr] at hkeeps
    have hcourse : (r >>= k) w = ⟨(r w).moments ++ (k a w').moments, (k a w').result⟩ := by simp only [Bind.bind, hr]
    obtain ⟨hkeeps', hseen', hanswer'⟩ := hk a (hanswer a w' hr) w' (G.next hw hkeeps)
    rw [hcourse]
    exact ⟨G.trans hkeeps hkeeps', List.forall_mem_append.mpr ⟨hseen, hseen'⟩, hanswer'⟩
  | error e w' =>
    rw [hr] at hkeeps
    have hcourse : (r >>= k) w = ⟨(r w).moments, .error e w'⟩ := by simp only [Bind.bind, hr]
    rw [hcourse]
    exact ⟨hkeeps, hseen, fun _ _ hb => (nomatch hb)⟩

theorem Allows.giving {r : Watched α} {values : α → List Value} (h : G.Allows r P)
    (hvalues : ∀ w, G.start w → ∀ a, P a → G.seen ⟨w, values a⟩) : G.Allows (r.giving values) P := by
  intro w hw
  obtain ⟨hkeeps, hseen, hanswer⟩ := h w hw
  cases hr : (r w).result with
  | ok a w' =>
    have hcourse : r.giving values w = ⟨(r w).moments ++ [⟨w', values a⟩], .ok a w'⟩ := by simp only [Watched.giving, hr]
    have hkeeps' : G.keeps w w' := by simpa only [Course.world, hr] using hkeeps
    have ha := hanswer a w' hr
    rw [hcourse]
    refine ⟨hkeeps', List.forall_mem_append.mpr ⟨hseen, fun m hm => ?_⟩, fun b w'' hb => by cases hb; exact ha⟩
    exact List.mem_singleton.mp hm ▸ hvalues w' (G.next hw hkeeps') a ha
  | error e w' =>
    have hcourse : r.giving values w = ⟨(r w).moments, .error e w'⟩ := by simp only [Watched.giving, hr]
    rw [hcourse]
    simp only [Course.world, hr] at hkeeps
    exact ⟨hkeeps, hseen, fun _ _ hb => (nomatch hb)⟩

/-- A run in a frame of its own has a guard of its own. -/
theorem Allows.inFrame {H : Guard} {frame : Frame} {r : Watched α} (h : H.Allows r P)
    (hpush : ∀ w, G.start w → H.start { w with store := w.store.push frame } ∧
      G.seen ⟨{ w with store := w.store.push frame }, []⟩)
    (hseen : ∀ m, H.seen m → G.seen m)
    (hdrop : ∀ w w', G.start w → H.keeps { w with store := w.store.push frame } w' →
      G.keeps w { w' with store := w'.store.dropFrame } ∧ G.seen ⟨{ w' with store := w'.store.dropFrame }, []⟩) :
    G.Allows (r.inFrame frame) P := by
  intro w hw
  obtain ⟨hstart, hfirst⟩ := hpush w hw
  obtain ⟨hkeeps, hmoments, hanswer⟩ := h _ hstart
  obtain ⟨hkeeps', hlast⟩ := hdrop w _ hw hkeeps
  refine ⟨by rwa [Course.world_inFrame], ?_, fun a w' ha => ?_⟩
  · rw [Course.moments_inFrame, List.forall_mem_append, List.forall_mem_cons, List.forall_mem_singleton]
    exact ⟨⟨hfirst, fun m hm => hseen m (hmoments m hm)⟩, hlast⟩
  · obtain ⟨w'', hr⟩ := Course.result_of_inFrame ha
    exact hanswer a w'' hr

end Guard
end Execution
end TypedImp
