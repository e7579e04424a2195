import Mathlib.Algebra.Group.Nat.Defs
import Mathlib.Data.List.TakeWhile
import TargetCode.Sink.Basic

/-!
Suppressed output, with a stack of regions in place of a counter.

The layer that drops content knows only a number, and it is told neither which
exit belongs to which region nor whether an exit has a region at all. Here all
open regions are kept, each with its flag, and the two are run side by side:
the number is always that of the regions from the outermost log-only one
inwards, so that it is zero exactly when everything is shown.
-/

namespace TargetCode

namespace Call

/-- The edge of a region that a call reports. -/
def boundary? : Call → Option Boundary
  | .enter region => some (.enter region)
  | .exit => some .exit
  | .text _ | .char _ | .range _ _ _ | .logging _ | .flush => none

/-- The text that a call appends where nothing is suppressed. An invalid range
appends none. -/
def piece : Call → String
  | .text s => s
  | .char c => String.singleton c
  | .range s start stop => (Text.slice? s start stop).getD ""
  | .logging call => call.placeholder
  | .enter _ | .exit | .flush => ""

/-- How a call ends where nothing is suppressed. -/
def result : Call → Except StreamError Unit
  | .range s start stop =>
    if (Text.slice? s start stop).isSome then .ok ()
    else .error (.invalidRange start stop (Text.byteLength s))
  | .text _ | .char _ | .logging _ | .enter _ | .exit | .flush => .ok ()

/-- Whether a call appends content, as opposed to edges of regions. -/
def isContent : Call → Bool
  | .text _ | .char _ | .range _ _ _ | .logging _ => true
  | .enter _ | .exit | .flush => false

theorem boundary?_of_isContent {call : Call} (h : call.isContent = true) :
    call.boundary? = none := by
  cases call <;> simp_all [isContent, boundary?]

theorem piece_of_not_isContent {call : Call} (h : call.isContent = false) : call.piece = "" := by
  cases call <;> simp_all [isContent, piece]

theorem result_of_not_isContent {call : Call} (h : call.isContent = false) :
    call.result = .ok () := by
  cases call <;> simp_all [isContent, result]

end Call

/-! ### Open regions -/

/-- Whether each of the open regions is log-only, the outermost first. -/
abbrev Flags := List Bool

namespace Flags

/-- The open regions after a call. An exit that matches no region changes
nothing. -/
def after (flags : Flags) : Call → Flags
  | .enter region => flags ++ [region.logOnly]
  | .exit => flags.dropLast
  | .text _ | .char _ | .range _ _ _ | .logging _ | .flush => flags

/-- The number of open regions from the outermost log-only one inwards. -/
def depth (flags : Flags) : Nat :=
  (flags.dropWhile (!·)).length

theorem depth_pos_iff (flags : Flags) : 0 < flags.depth ↔ true ∈ flags := by
  rw [depth, List.length_pos_iff, Ne, List.dropWhile_eq_nil_iff]
  simp

theorem depth_eq_zero {flags : Flags} (h : true ∉ flags) : flags.depth = 0 :=
  Nat.eq_zero_of_not_pos (mt (depth_pos_iff flags).1 h)

/-- A region adds to the depth if it is log-only or inside one that is. -/
theorem depth_concat (flags : Flags) (flag : Bool) :
    depth (flags ++ [flag]) = if true ∈ flags ∨ flag = true then flags.depth + 1 else 0 := by
  have hempty : (flags.dropWhile (!·)).isEmpty = true ↔ true ∉ flags := by
    rw [List.isEmpty_iff, List.dropWhile_eq_nil_iff]
    simp
  rw [depth, List.dropWhile_append]
  by_cases hflags : true ∈ flags
  · rw [if_neg (mt hempty.1 (not_not_intro hflags)), if_pos (.inl hflags), List.length_append]
    rfl
  · rw [if_pos (hempty.2 hflags), depth_eq_zero hflags]
    cases flag <;> simp [hflags]

theorem depth_concat_le (flags : Flags) (flag : Bool) :
    flags.depth ≤ depth (flags ++ [flag]) ∧ depth (flags ++ [flag]) ≤ flags.depth + 1 := by
  rw [depth_concat]
  split
  · omega
  · next h => simp [depth_eq_zero (not_or.1 h).1]

theorem depth_dropLast (flags : Flags) : depth flags.dropLast = flags.depth - 1 := by
  rcases flags.eq_nil_or_concat with rfl | ⟨outer, flag, rfl⟩
  · rfl
  · rw [List.concat_eq_append, List.dropLast_concat, depth_concat]
    split
    · rfl
    · next h => exact depth_eq_zero fun hmem => h (.inl hmem)

theorem depth_after_le {flags : Flags} {call : Call} {limit : Nat} (h : flags.depth ≤ limit)
    (henter : ∀ region, call = .enter region → flags.depth < limit) :
    (flags.after call).depth ≤ limit := by
  cases call with
  | enter region =>
      have hlt := henter region rfl
      have hle := (depth_concat_le flags region.logOnly).2
      exact hle.trans hlt
  | exit =>
      rw [after, depth_dropLast]
      omega
  | _ => exact h

/-- The open regions after several calls. -/
def afterAll (flags : Flags) (calls : List Call) : Flags :=
  calls.foldl after flags

/-- What a call adds to the content: nothing while an open region is
log-only. -/
def shown (flags : Flags) (call : Call) : String :=
  if true ∈ flags then "" else call.piece

/-- What several calls add to the content. -/
def shownAll (flags : Flags) : List Call → String
  | [] => ""
  | call :: calls => flags.shown call ++ (flags.after call).shownAll calls

/-- How a call ends. A fault is not noticed in what is not shown. -/
def result (flags : Flags) (call : Call) : Except StreamError Unit :=
  if true ∈ flags then .ok () else call.result

theorem depth_afterAll_replicate (flags : Flags) {region : Region} (h : region.logOnly = true)
    (n : Nat) : (flags.afterAll (List.replicate n (.enter region))).depth = flags.depth + n := by
  induction n generalizing flags with
  | zero => rfl
  | succ n ih =>
      rw [List.replicate_succ, afterAll, List.foldl_cons, ← afterAll, ih, after, depth_concat,
        if_pos (.inr h)]
      omega

end Flags

/-! ### The counter -/

namespace Sink

/-- The sink after several calls, whether they succeed or not. -/
def run (s : Sink) (calls : List Call) : Sink :=
  calls.foldl (fun s call => (s.perform call).sink) s

/-- A recorder under a layer that suppresses content. -/
def watched (depth : Nat) (content : String) (boundaries : List Boundary) : Sink :=
  .layered (.logOnly depth) (.base (.recorder content boundaries))

@[simp] theorem depths_watched (depth : Nat) (content : String) (boundaries : List Boundary) :
    (watched depth content boundaries).depths = [depth] :=
  rfl

end Sink

/-- A recorder takes every call as it comes. -/
theorem Base.perform_recorder (content : String) (boundaries : List Boundary) (call : Call) :
    (Base.recorder content boundaries).perform call =
      (.recorder (content ++ call.piece) (boundaries ++ call.boundary?.toList), call.result) := by
  cases call with
  | range s start stop =>
      cases hslice : Text.slice? s start stop with
      | none => simp [Base.perform, Call.piece, Call.boundary?, Call.result, hslice]
      | some part =>
          simp [Base.perform, Base.append, Call.piece, Call.boundary?, Call.result, hslice]
  | enter region => simp [Base.perform, Base.mark, Call.piece, Call.boundary?, Call.result]
  | exit => simp [Base.perform, Base.mark, Call.piece, Call.boundary?, Call.result]
  | _ => simp [Base.perform, Base.append, Call.piece, Call.boundary?, Call.result]

namespace Layer

/-- The counter keeps to the stack: the layer has the depth of the open
regions again, and it has dropped content while one of them is log-only. -/
theorem stepLogOnly_depth (flags : Flags) (call : Call)
    (h : ∀ region, call = .enter region → flags.depth < maxDepth) :
    (stepLogOnly flags.depth call).layer = .logOnly (flags.after call).depth ∧
      (stepLogOnly flags.depth call).passage =
        if true ∈ flags ∧ call.isContent then .drop else .forward call := by
  have hpos := flags.depth_pos_iff
  cases call with
  | enter region =>
      have hne : flags.depth ≠ maxDepth := Nat.ne_of_lt (h region rfl)
      rw [Flags.after, Flags.depth_concat]
      by_cases hflags : true ∈ flags ∨ region.logOnly = true
      · simp [stepLogOnly, hpos, hflags, hne, Call.isContent]
      · obtain ⟨hmem, hregion⟩ := not_or.1 hflags
        simp [stepLogOnly, hmem, hregion, Flags.depth_eq_zero hmem, Call.isContent]
  | exit =>
      rw [Flags.after, Flags.depth_dropLast]
      by_cases hflags : true ∈ flags
      · simp [stepLogOnly, hpos, hflags, Call.isContent]
      · simp [stepLogOnly, hflags, Flags.depth_eq_zero hflags, Call.isContent]
  | _ => simp [stepLogOnly, Flags.after, Call.isContent, hpos]

/-- At the largest depth no region can be entered. -/
theorem stepLogOnly_maxDepth (region : Region) :
    stepLogOnly maxDepth (.enter region) =
      ⟨.logOnly maxDepth, [], .refuse (.depthOverflow maxDepth)⟩ := by
  simp [stepLogOnly, maxDepth]

end Layer

/-! ### Both side by side -/

namespace Sink

variable (flags : Flags) (content : String) (boundaries : List Boundary)

/-- One call, unless it is an enter at the largest depth. -/
theorem perform_watched (call : Call)
    (h : ∀ region, call = .enter region → flags.depth < Layer.maxDepth) :
    ∃ events, (watched flags.depth content boundaries).perform call =
      ⟨watched (flags.after call).depth (content ++ flags.shown call)
          (boundaries ++ call.boundary?.toList), flags.result call, events⟩ := by
  obtain ⟨hlayer, hpassage⟩ := Layer.stepLogOnly_depth flags call h
  refine ⟨(Layer.stepLogOnly flags.depth call).events, ?_⟩
  simp only [watched, perform, Layer.step, hlayer, hpassage, Flags.shown, Flags.result]
  -- While something is suppressed only content is dropped; the edges of regions
  -- reach the recorder and add no text there.
  by_cases hflags : true ∈ flags
  · cases hcontent : call.isContent with
    | true => simp [hflags, Call.boundary?_of_isContent hcontent]
    | false =>
        simp [hflags, Base.perform_recorder, Call.piece_of_not_isContent hcontent,
          Call.result_of_not_isContent hcontent]
  · simp [hflags, Base.perform_recorder]

/-- An enter at the largest depth fails and changes nothing. -/
theorem perform_watched_maxDepth (region : Region) :
    (watched Layer.maxDepth content boundaries).perform (.enter region) =
      ⟨watched Layer.maxDepth content boundaries, .error (.depthOverflow Layer.maxDepth), []⟩ := by
  simp only [watched, perform, Layer.step, Layer.stepLogOnly_maxDepth]

/-- Each time a region is entered, fewer than `limit` regions are counted. -/
def EntersBelow (limit : Nat) (s : Sink) (calls : List Call) : Prop :=
  ∀ earlier region later, calls = earlier ++ .enter region :: later →
    ∀ depth ∈ (s.run earlier).depths, depth < limit

/-- A run that never meets the largest depth at an enter. -/
theorem run_watched (calls : List Call)
    (h : (watched flags.depth content boundaries).EntersBelow Layer.maxDepth calls) :
    (watched flags.depth content boundaries).run calls =
      watched (flags.afterAll calls).depth (content ++ flags.shownAll calls)
        (boundaries ++ calls.filterMap Call.boundary?) := by
  induction calls generalizing flags content boundaries with
  | nil => simp [run, Flags.afterAll, Flags.shownAll]
  | cons call calls ih =>
      have hcall : ∀ region, call = .enter region → flags.depth < Layer.maxDepth := by
        rintro region rfl
        exact h [] region calls rfl flags.depth (by simp [run])
      obtain ⟨events, hperform⟩ := perform_watched flags content boundaries call hcall
      have hsink := congrArg Outcome.sink hperform
      have hrest := ih (flags.after call) (content ++ flags.shown call)
        (boundaries ++ call.boundary?.toList) (by
          rintro earlier region later rfl depth hdepth
          refine h (call :: earlier) region later rfl depth ?_
          rwa [run, List.foldl_cons, hsink])
      rw [run, List.foldl_cons, hsink, ← run, hrest, Flags.shownAll, String.append_assoc,
        List.append_assoc]
      cases hboundary : call.boundary? <;> simp [hboundary, Flags.afterAll]

/-- One call, whichever it is, leads to a depth that the layer can count. -/
theorem exists_perform_watched (call : Call) (h : flags.depth ≤ Layer.maxDepth) :
    ∃ (flags' : Flags) (content' : String) (boundaries' : List Boundary),
      ((watched flags.depth content boundaries).perform call).sink =
        watched flags'.depth content' boundaries' ∧
      flags'.depth ≤ Layer.maxDepth ∧ flags'.depth ≤ flags.depth + 1 := by
  by_cases hcall : ∀ region, call = .enter region → flags.depth < Layer.maxDepth
  · obtain ⟨events, hperform⟩ := perform_watched flags content boundaries call hcall
    exact ⟨_, _, _, congrArg Outcome.sink hperform, Flags.depth_after_le h hcall,
      Flags.depth_after_le (Nat.le_succ _) fun _ _ => Nat.lt_succ_self _⟩
  · simp only [not_forall, Nat.not_lt] at hcall
    obtain ⟨region, rfl, hdepth⟩ := hcall
    have hmax : flags.depth = Layer.maxDepth := Nat.le_antisymm h hdepth
    refine ⟨flags, content, boundaries, ?_, h, Nat.le_succ _⟩
    rw [hmax, perform_watched_maxDepth]

theorem exists_run_watched (calls : List Call) (h : flags.depth ≤ Layer.maxDepth) :
    ∃ (flags' : Flags) (content' : String) (boundaries' : List Boundary),
      (watched flags.depth content boundaries).run calls =
        watched flags'.depth content' boundaries' ∧
      flags'.depth ≤ Layer.maxDepth ∧ flags'.depth ≤ flags.depth + calls.length := by
  induction calls generalizing flags content boundaries with
  | nil => exact ⟨flags, content, boundaries, rfl, h, Nat.le_refl _⟩
  | cons call calls ih =>
      obtain ⟨flags₁, content₁, boundaries₁, hsink, hmax, hgrows⟩ :=
        exists_perform_watched flags content boundaries call h
      obtain ⟨flags₂, content₂, boundaries₂, hrun, hmax', hgrows'⟩ :=
        ih flags₁ content₁ boundaries₁ hmax
      refine ⟨flags₂, content₂, boundaries₂, ?_, hmax', ?_⟩
      · rw [run, List.foldl_cons, hsink]
        exact hrun
      · rw [List.length_cons]
        omega

/-- The depth grows by at most one with each call, so only a long run can meet
the limit. -/
theorem entersBelow_of_length_le {limit : Nat} {calls : List Call} (h : calls.length ≤ limit) :
    (watched 0 "" []).EntersBelow limit calls := by
  rintro earlier region later rfl depth hdepth
  obtain ⟨flags, content, boundaries, hrun, -, hgrows⟩ :=
    exists_run_watched [] "" [] earlier (Nat.zero_le _)
  rw [show (watched 0 "" []).run earlier = _ from hrun] at hdepth
  obtain rfl : depth = flags.depth := by simpa using hdepth
  calc
    flags.depth ≤ 0 + earlier.length := hgrows
    _ < (earlier ++ .enter region :: later).length := by simp
    _ ≤ limit := h

/-- A recorder under a fresh layer, after any calls. As long as the depth can
still be counted at each enter, the depth, the content and the edges are those
that follow from the stack of open regions, and an invalid range is an error
exactly when it would be shown. At the largest depth an enter fails and changes
nothing, so the depth never starts over. -/
theorem depth_counts_open_regions (calls : List Call) :
    let start := watched 0 "" []
    let sink := start.run calls
    let flags := Flags.afterAll [] calls
    (start.EntersBelow (2 ^ 32 - 1) calls →
      sink = watched flags.depth (Flags.shownAll [] calls) (calls.filterMap Call.boundary?) ∧
      ∀ s first last, (sink.perform (.range s first last)).result =
        if Text.slice? s first last = none ∧ true ∉ flags then
          .error (.invalidRange first last (Text.byteLength s))
        else .ok ()) ∧
    ∃ depth content boundaries, sink = watched depth content boundaries ∧ depth ≤ 2 ^ 32 - 1 ∧
      (depth = 2 ^ 32 - 1 → ∀ region,
        sink.perform (.enter region) = ⟨sink, .error (.depthOverflow depth), []⟩) ∧
      (depth < 2 ^ 32 - 1 → ∀ region, ∃ depth' events, depth ≤ depth' ∧ depth' ≤ 2 ^ 32 - 1 ∧
        sink.perform (.enter region) =
          ⟨watched depth' content (boundaries ++ [.enter region]), .ok (), events⟩) := by
  intro start sink flags
  constructor
  · intro hbelow
    have hsink : sink = watched flags.depth (Flags.shownAll [] calls)
        (calls.filterMap Call.boundary?) := by
      have hrun := run_watched [] "" [] calls hbelow
      rwa [String.empty_append, List.nil_append] at hrun
    refine ⟨hsink, fun s first last => ?_⟩
    obtain ⟨events, hperform⟩ := perform_watched flags (Flags.shownAll [] calls)
      (calls.filterMap Call.boundary?) (.range s first last) (by simp)
    rw [hsink, hperform]
    cases hslice : Text.slice? s first last <;> simp [Flags.result, Call.result, hslice]
  · obtain ⟨flags', content, boundaries, hsink, hle, -⟩ :=
      exists_run_watched [] "" [] calls (Nat.zero_le _)
    refine ⟨flags'.depth, content, boundaries, hsink, hle, ?_, ?_⟩
    · intro hmax region
      rw [show sink = _ from hsink, show flags'.depth = Layer.maxDepth from hmax]
      exact perform_watched_maxDepth content boundaries region
    · intro hlt region
      obtain ⟨hgrows, hstep⟩ := Flags.depth_concat_le flags' region.logOnly
      obtain ⟨events, hperform⟩ := perform_watched flags' content boundaries (.enter region)
        fun _ _ => hlt
      refine ⟨_, events, hgrows, hstep.trans hlt, ?_⟩
      rw [show sink = _ from hsink, hperform]
      simp [Flags.shown, Flags.result, Flags.after, Call.piece, Call.result, Call.boundary?]

/-- Nested and unmatched regions, and a run that goes on until the depth cannot
grow. -/
theorem depth_counts_open_regions_nested :
    let visible : Region := ⟨1, none, false⟩
    let hidden : Region := ⟨2, none, true⟩
    let start := watched 0 "" []
    let calls : List Call := [.exit, .enter visible, .text "a", .enter hidden, .enter visible,
      .range "é" 0 1, .exit, .char 'b', .exit, .text "c"]
    let long : List Call := List.replicate (2 ^ 32 - 1) (.enter hidden)
    start.EntersBelow (2 ^ 32 - 1) calls ∧
      start.run calls = watched 0 "ac"
        [.exit, .enter visible, .enter hidden, .enter visible, .exit, .exit] ∧
      ((start.run calls).perform (.range "é" 0 1)).result = .error (.invalidRange 0 1 2) ∧
      start.EntersBelow (2 ^ 32 - 1) long ∧
      (start.run long).perform (.enter visible) =
        ⟨start.run long, .error (.depthOverflow (2 ^ 32 - 1)), []⟩ := by
  intro visible hidden start calls long
  have hcalls : start.EntersBelow (2 ^ 32 - 1) calls := entersBelow_of_length_le (by decide)
  have hlong : start.EntersBelow (2 ^ 32 - 1) long :=
    entersBelow_of_length_le (Nat.le_of_eq List.length_replicate)
  obtain ⟨hsink, hrange⟩ := (depth_counts_open_regions calls).1 hcalls
  obtain ⟨hsinkLong, -⟩ := (depth_counts_open_regions long).1 hlong
  obtain ⟨depth, content, boundaries, hsinkLong', -, hfull, -⟩ := (depth_counts_open_regions long).2
  have hdepth : depth = 2 ^ 32 - 1 := by
    have heq := congrArg depths (hsinkLong'.symm.trans hsinkLong)
    rw [depths_watched, depths_watched, Flags.depth_afterAll_replicate [] rfl,
      show Flags.depth [] = 0 from rfl, Nat.zero_add] at heq
    exact List.singleton_inj.1 heq
  subst hdepth
  exact ⟨hcalls, hsink.trans rfl, (hrange _ _ _).trans (by decide), hlong,
    hfull rfl visible⟩

end Sink

end TargetCode
