import Mathlib.Data.List.Induction
import Mathlib.Logic.Function.Iterate
import TargetCode.Proofs.StreamedEscape

/-!
Layers over a recorder, in any order.

A stack of layers amounts to very little: how often content is escaped, and, if
any layer suppresses content, which regions are open. All suppressing layers
count the same regions, since edges of regions reach every one of them or, at
the largest depth, none. This is written down as an account, which takes calls
like a sink. A stack stays in step with its account through every run, and two
stacks with the same account cannot be told apart.
-/

namespace TargetCode

namespace Call

def isEnter : Call → Bool
  | .enter _ => true
  | .text _ | .char _ | .range _ _ _ | .logging _ | .exit | .flush => false

theorem isEnter_iff {call : Call} : call.isEnter = true ↔ ∃ region, call = .enter region := by
  cases call <;> simp [isEnter]

/-- The edge of a region that a call reports if it succeeds. -/
def edge? (call : Call) (result : Except StreamError Unit) : Option Boundary :=
  if result = .ok () then call.boundary? else none

/-- The edges of regions reported by several calls that end with `results`. -/
def edges (calls : List Call) (results : List (Except StreamError Unit)) : List Boundary :=
  (List.zipWith edge? calls results).filterMap id

theorem edges_cons (call : Call) (calls : List Call) (result : Except StreamError Unit)
    (results : List (Except StreamError Unit)) :
    edges (call :: calls) (result :: results) =
      (call.edge? result).toList ++ edges calls results := by
  rw [edges, List.zipWith_cons_cons]
  cases call.edge? result <;> rfl

end Call

@[simp] theorem Layer.isEnter_escapeCall (call : Call) :
    (escapeCall call).isEnter = call.isEnter := by
  cases call with
  | range s start stop =>
      cases hslice : Text.slice? s start stop <;> simp [escapeCall, Call.isEnter, hslice]
  | _ => rfl

namespace Flags

variable (flags : Flags)

@[simp] theorem after_escapeCall (call : Call) :
    flags.after (Layer.escapeCall call) = flags.after call := by
  cases call with
  | range s start stop =>
      cases hslice : Text.slice? s start stop <;> simp [Layer.escapeCall, after, hslice]
  | _ => rfl

@[simp] theorem shown_escapeCall (call : Call) :
    flags.shown (Layer.escapeCall call) = Text.escapeHtml (flags.shown call) := by
  rw [shown, shown, Layer.piece_escapeCall]
  split <;> rfl

@[simp] theorem result_escapeCall (call : Call) :
    flags.result (Layer.escapeCall call) = flags.result call := by
  rw [result, result, Layer.result_escapeCall]

theorem after_of_isContent {call : Call} (h : call.isContent = true) :
    flags.after call = flags := by
  cases call <;> simp_all [Call.isContent, after]

variable {flags}

/-- What is not content looks the same whether or not a region is log-only. -/
theorem shown_eq_piece {call : Call} (h : ¬(true ∈ flags ∧ call.isContent = true)) :
    flags.shown call = call.piece := by
  rw [shown]
  split
  · next hflags => rw [Call.piece_of_not_isContent (by simpa [hflags] using h)]
  · rfl

theorem result_eq {call : Call} (h : ¬(true ∈ flags ∧ call.isContent = true)) :
    flags.result call = call.result := by
  rw [result]
  split
  · next hflags => rw [Call.result_of_not_isContent (by simpa [hflags] using h)]
  · rfl

end Flags

/-- What a stack of layers over a recorder amounts to. -/
structure Account where
  /-- How often content is escaped. -/
  escapes : Nat
  /-- The open regions, if some layer suppresses content. -/
  flags? : Option Flags
  content : String
  boundaries : List Boundary

namespace Account

/-- The open regions that matter. -/
def flags (a : Account) : Flags :=
  a.flags?.getD []

/-- A region is to be entered, but no more can be counted. -/
def Refuses (a : Account) (call : Call) : Prop :=
  call.isEnter = true ∧ a.flags.depth = Layer.maxDepth

instance (a : Account) (call : Call) : Decidable (a.Refuses call) :=
  inferInstanceAs (Decidable (_ ∧ _))

def perform (a : Account) (call : Call) : Account × Except StreamError Unit :=
  if a.Refuses call then (a, .error (.depthOverflow Layer.maxDepth))
  else
    ({ a with
        flags? := a.flags?.map (·.after call)
        content := a.content ++ Text.escapeHtml^[a.escapes] (a.flags.shown call)
        boundaries := a.boundaries ++ call.boundary?.toList },
      a.flags.result call)

def run (a : Account) (calls : List Call) : Account :=
  calls.foldl (fun a call => (a.perform call).1) a

def results (a : Account) : List Call → List (Except StreamError Unit)
  | [] => []
  | call :: calls => (a.perform call).2 :: (a.perform call).1.results calls

theorem iterate_escapeHtml_empty (n : Nat) : Text.escapeHtml^[n] "" = "" :=
  Function.iterate_fixed Text.escapeHtml_empty n

theorem not_refuses_of_flags?_eq_none {a : Account} (h : a.flags? = none) (call : Call) :
    ¬a.Refuses call := by
  rintro ⟨-, hdepth⟩
  simp [flags, h, Flags.depth, Layer.maxDepth] at hdepth

/-- An edge of a region is recorded if the call succeeds, and only then. -/
theorem boundaries_perform (a : Account) (call : Call) :
    (a.perform call).1.boundaries =
      a.boundaries ++ (call.edge? (a.perform call).2).toList := by
  rw [perform, Call.edge?]
  split
  · simp
  · cases hcontent : call.isContent with
    | true => simp [Call.boundary?_of_isContent hcontent]
    | false =>
        have hshown : ¬(true ∈ a.flags ∧ call.isContent = true) := by simp [hcontent]
        simp [Flags.result_eq hshown, Call.result_of_not_isContent hcontent]

theorem boundaries_run (a : Account) (calls : List Call) :
    (a.run calls).boundaries = a.boundaries ++ Call.edges calls (a.results calls) := by
  induction calls generalizing a with
  | nil => simp [run, Call.edges]
  | cons call calls ih =>
      rw [run, List.foldl_cons, ← run, ih, boundaries_perform, List.append_assoc, results,
        Call.edges_cons]

end Account

/-! ### Stacks and their accounts -/

namespace Sink

/-- A stack and its account. All layers that suppress content have the depth of
the same open regions. -/
inductive Shows : Sink → Account → Prop where
  | recorder (content : String) (boundaries : List Boundary) :
      Shows (.base (.recorder content boundaries)) ⟨0, none, content, boundaries⟩
  | tracing {s : Sink} {a : Account} (inner : Shows s a) : Shows (.layered .tracing s) a
  | escapeHtml {s : Sink} {a : Account} (inner : Shows s a) :
      Shows (.layered .escapeHtml s) { a with escapes := a.escapes + 1 }
  | logOnly {s : Sink} {a : Account} (inner : Shows s a) {flags : Flags}
      (agrees : a.flags? = none ∨ a.flags? = some flags)
      (counted : flags.depth ≤ Layer.maxDepth) :
      Shows (.layered (.logOnly flags.depth) s) { a with flags? := some flags }

theorem Shows.bottom_eq {s : Sink} {a : Account} (h : s.Shows a) :
    s.bottom = .recorder a.content a.boundaries := by
  induction h with
  | recorder content boundaries => rfl
  | tracing _ ih => exact ih
  | escapeHtml _ ih => exact ih
  | logOnly _ _ _ ih => exact ih

end Sink

namespace Account

/-- An escaped call where content is escaped once less often. -/
theorem perform_escapeCall (a : Account) (call : Call) :
    { a with escapes := a.escapes + 1 }.perform call =
      ({ (a.perform (Layer.escapeCall call)).1 with
          escapes := (a.perform (Layer.escapeCall call)).1.escapes + 1 },
        (a.perform (Layer.escapeCall call)).2) := by
  have hrefuses : { a with escapes := a.escapes + 1 }.Refuses call ↔
      a.Refuses (Layer.escapeCall call) := by
    rw [Refuses, Refuses, Layer.isEnter_escapeCall]
    rfl
  rw [perform, perform]
  by_cases h : a.Refuses (Layer.escapeCall call)
  · rw [if_pos h, if_pos (hrefuses.2 h)]
  · rw [if_neg h, if_neg (mt hrefuses.1 h)]
    simp [flags, Function.iterate_succ_apply]

/-- A layer that suppresses content takes nothing from the account but the
content that it drops. -/
theorem perform_suppressing {a : Account} {flags : Flags}
    (agrees : a.flags? = none ∨ a.flags? = some flags) {call : Call}
    (hrefuses : ¬{ a with flags? := some flags }.Refuses call)
    (hshown : ¬(true ∈ flags ∧ call.isContent = true)) :
    { a with flags? := some flags }.perform call =
      ({ (a.perform call).1 with flags? := some (flags.after call) }, (a.perform call).2) ∧
    ((a.perform call).1.flags? = none ∨ (a.perform call).1.flags? = some (flags.after call)) := by
  rcases agrees with hnone | hsome
  · have hflags : a.flags = [] := by rw [Account.flags, hnone]; rfl
    have hempty : ¬(true ∈ a.flags ∧ call.isContent = true) := by simp [hflags]
    rw [perform, perform, if_neg hrefuses, if_neg (not_refuses_of_flags?_eq_none hnone call)]
    have hsome : { a with flags? := some flags }.flags = flags := rfl
    rw [hsome, Flags.shown_eq_piece hshown, Flags.shown_eq_piece hempty, Flags.result_eq hshown,
      Flags.result_eq hempty]
    simp [hnone]
  · have heq : { a with flags? := some flags } = a := by rw [← hsome]
    rw [heq] at hrefuses ⊢
    rw [perform, if_neg hrefuses]
    simp [hsome]

/-- Content is dropped inside a log-only region, and nothing is noticed. -/
theorem perform_hidden {a : Account} {call : Call} (hflags : true ∈ a.flags)
    (hcontent : call.isContent = true) : a.perform call = (a, .ok ()) := by
  have hrefuses : ¬a.Refuses call := by
    rintro ⟨henter, -⟩
    cases call <;> simp_all [Call.isContent, Call.isEnter]
  have hafter : a.flags?.map (·.after call) = a.flags? := by
    simp [Flags.after_of_isContent _ hcontent]
  rw [perform, if_neg hrefuses, hafter, Flags.shown, Flags.result, if_pos hflags, if_pos hflags,
    iterate_escapeHtml_empty, Call.boundary?_of_isContent hcontent]
  simp

end Account

namespace Sink.Shows

variable {s : Sink} {a : Account}

/-- One call. -/
theorem perform (h : s.Shows a) (call : Call) :
    (s.perform call).sink.Shows (a.perform call).1 ∧
      (s.perform call).result = (a.perform call).2 := by
  induction h generalizing call with
  | recorder content boundaries =>
      have hrefuses := Account.not_refuses_of_flags?_eq_none
        (a := ⟨0, none, content, boundaries⟩) rfl call
      rw [Account.perform, if_neg hrefuses, Sink.perform, Base.perform_recorder]
      exact ⟨.recorder _ _, rfl⟩
  | tracing _ ih => exact ⟨.tracing (ih call).1, (ih call).2⟩
  | escapeHtml _ ih =>
      rw [Account.perform_escapeCall]
      exact ⟨.escapeHtml (ih _).1, (ih _).2⟩
  | @logOnly s a inner flags agrees counted ih =>
      by_cases hrefuses : { a with flags? := some flags }.Refuses call
      · obtain ⟨region, rfl⟩ := Call.isEnter_iff.1 hrefuses.1
        have hdepth : flags.depth = Layer.maxDepth := hrefuses.2
        have hstep : (layered (.logOnly flags.depth) s).perform (.enter region) =
            ⟨layered (.logOnly flags.depth) s, .error (.depthOverflow Layer.maxDepth), []⟩ := by
          simp only [Sink.perform, Layer.step, hdepth, Layer.stepLogOnly_maxDepth]
        rw [Account.perform, if_pos hrefuses, hstep]
        exact ⟨.logOnly inner agrees counted, rfl⟩
      · have hcall : ∀ region, call = .enter region → flags.depth < Layer.maxDepth := by
          rintro region rfl
          exact Nat.lt_of_le_of_ne counted fun hdepth => hrefuses ⟨rfl, hdepth⟩
        obtain ⟨hlayer, hpassage⟩ := Layer.stepLogOnly_depth flags call hcall
        simp only [Sink.perform, Layer.step, hlayer, hpassage]
        by_cases hhidden : true ∈ flags ∧ call.isContent = true
        · obtain ⟨hflags, hcontent⟩ := hhidden
          rw [if_pos ⟨hflags, hcontent⟩, Flags.after_of_isContent flags hcontent,
            Account.perform_hidden (a := { a with flags? := some flags }) hflags hcontent]
          exact ⟨.logOnly inner agrees counted, rfl⟩
        · obtain ⟨hperform, hagrees⟩ := Account.perform_suppressing agrees hrefuses hhidden
          rw [if_neg hhidden, hperform]
          exact ⟨.logOnly (ih call).1 hagrees (Flags.depth_after_le counted hcall), (ih call).2⟩

theorem run (h : s.Shows a) (calls : List Call) :
    (s.run calls).Shows (a.run calls) ∧ s.results calls = a.results calls := by
  induction calls generalizing s a with
  | nil => exact ⟨h, rfl⟩
  | cons call calls ih =>
      obtain ⟨hsink, hresult⟩ := h.perform call
      obtain ⟨hrun, hresults⟩ := ih hsink
      exact ⟨hrun, congrArg₂ List.cons hresult hresults⟩

end Sink.Shows

/-! ### Stacks of fresh layers -/

/-- Every layer that can be put on a sink. -/
def Layer.fresh : List Layer :=
  [.suppressing, .escapeHtml, .tracing]

namespace Account

/-- The open regions before the first call, if some layer suppresses content. -/
def initialFlags? (layers : List Layer) : Option Flags :=
  if .suppressing ∈ layers then some [] else none

theorem initialFlags?_cases (layers : List Layer) :
    initialFlags? layers = none ∨ initialFlags? layers = some [] := by
  rw [initialFlags?]
  split
  · exact .inr rfl
  · exact .inl rfl

theorem initialFlags?_concat (layers : List Layer) (layer : Layer) :
    initialFlags? (layers ++ [layer]) =
      if layer = .suppressing then some [] else initialFlags? layers := by
  by_cases h : layer = .suppressing
  · simp [initialFlags?, h]
  · simp [initialFlags?, h, Ne.symm h]

end Account

namespace Sink

theorem cover_concat (s : Sink) (layers : List Layer) (layer : Layer) :
    s.cover (layers ++ [layer]) = layered layer (s.cover layers) :=
  List.foldl_append

/-- The account of a stack before the first call. -/
theorem shows_cover (content : String) (boundaries : List Boundary) {layers : List Layer}
    (h : layers ⊆ Layer.fresh) :
    ((base (.recorder content boundaries)).cover layers).Shows
      ⟨layers.count .escapeHtml, Account.initialFlags? layers, content, boundaries⟩ := by
  induction layers using List.reverseRecOn with
  | nil => exact .recorder content boundaries
  | append_singleton layers layer ih =>
      obtain ⟨hlayers, hlayer⟩ := List.append_subset.1 h
      have hfresh : layer = .suppressing ∨ layer = .escapeHtml ∨ layer = .tracing := by
        simpa [Layer.fresh] using hlayer
      rw [cover_concat, Account.initialFlags?_concat, List.count_append, List.count_singleton]
      rcases hfresh with rfl | rfl | rfl
      · exact (ih hlayers).logOnly (Account.initialFlags?_cases layers) (Nat.zero_le _)
      · exact (ih hlayers).escapeHtml
      · exact (ih hlayers).tracing

/-- Two stacks of layers over a recorder that escape equally often and that both
suppress content or both do not. Whatever the order of their layers, however
many of them suppress or trace, and whichever calls are made, each call ends in
the same way on both, and the recorders hold the same in the end. The edges of
regions that have arrived are those of the calls that succeeded, each once. -/
theorem layer_order_is_irrelevant {layers others : List Layer}
    (hlayers : layers ⊆ Layer.fresh) (hothers : others ⊆ Layer.fresh)
    (hescapes : layers.count .escapeHtml = others.count .escapeHtml)
    (hsuppresses : .suppressing ∈ layers ↔ .suppressing ∈ others)
    (content : String) (boundaries : List Boundary) (calls : List Call) :
    let recorder := base (.recorder content boundaries)
    let one := recorder.cover layers
    let other := recorder.cover others
    one.results calls = other.results calls ∧
      (one.run calls).bottom = (other.run calls).bottom ∧
      ∃ text, (one.run calls).bottom =
        .recorder text (boundaries ++ Call.edges calls (one.results calls)) := by
  intro recorder one other
  have hone := shows_cover content boundaries hlayers
  have hother := shows_cover content boundaries hothers
  have hflags : Account.initialFlags? others = Account.initialFlags? layers := by
    simp only [Account.initialFlags?, hsuppresses]
  rw [← hescapes, hflags] at hother
  obtain ⟨hshows, hresults⟩ := hone.run calls
  obtain ⟨hshows', hresults'⟩ := hother.run calls
  refine ⟨hresults.trans hresults'.symm, hshows.bottom_eq.trans hshows'.bottom_eq.symm, ?_⟩
  rw [hshows.bottom_eq, Account.boundaries_run, show one.results calls = _ from hresults]
  exact ⟨_, rfl⟩

/-- Suppression outside and inside of escaping, once and twice, with invalid
ranges both shown and hidden. -/
theorem layer_order_is_irrelevant_nested :
    let visible : Region := ⟨1, none, false⟩
    let hidden : Region := ⟨2, none, true⟩
    let layers : List Layer := [.suppressing, .escapeHtml]
    let others : List Layer := [.escapeHtml, .suppressing, .tracing, .suppressing]
    let calls : List Call := [.text "<", .range "é" 0 1, .enter hidden, .char '>', .enter visible,
      .range "é" 0 1, .exit, .exit, .logging ⟨"f", "&", []⟩]
    let results : List (Except StreamError Unit) := [.ok (), .error (.invalidRange 0 1 2), .ok (),
      .ok (), .ok (), .ok (), .ok (), .ok (), .ok ()]
    let one := (base (.recorder "" [])).cover layers
    let other := (base (.recorder "" [])).cover others
    (layers ⊆ Layer.fresh ∧ others ⊆ Layer.fresh ∧
        layers.count .escapeHtml = others.count .escapeHtml ∧
        (.suppressing ∈ layers ↔ .suppressing ∈ others)) ∧
      (one.results calls = results ∧ other.results calls = results) ∧
      (one.run calls).bottom = .recorder "&lt;&amp;"
        [.enter hidden, .enter visible, .exit, .exit] ∧
      (other.run calls).bottom = (one.run calls).bottom := by
  intro visible hidden layers others calls results one other
  have hlayers : layers ⊆ Layer.fresh := by decide
  have hothers : others ⊆ Layer.fresh := by decide
  have hsuppresses : .suppressing ∈ layers ↔ .suppressing ∈ others := by decide
  obtain ⟨hresults, hbottom, text, hedges⟩ :=
    layer_order_is_irrelevant hlayers hothers rfl hsuppresses "" [] calls
  have hone : one.results calls = results := by decide
  have htext : (one.run calls).bottom.content? = some "&lt;&amp;" := by decide
  rw [hedges] at htext
  refine ⟨⟨hlayers, hothers, rfl, hsuppresses⟩, ⟨hone, hresults.symm.trans hone⟩, ?_, hbottom.symm⟩
  rw [hedges, Option.some.inj htext]
  exact congrArg _ (congrArg (Call.edges calls) hone)

end Sink

end TargetCode
