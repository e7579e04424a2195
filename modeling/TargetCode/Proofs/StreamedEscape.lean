import TargetCode.Builtin.Operations
import TargetCode.Proofs.Suppression

/-!
Text that is escaped on its way into a sink.

The streaming form of `escapeHtml` never holds the value as a whole. It is
handed pieces of it, as texts, as single characters, as byte ranges of longer
texts or as placeholders, and other calls come between them. Escaping works on
single characters, so that nothing depends on where the value was cut: what the
sink below has collected in the end is the escaped form of what it would have
collected without the layer, and no call ends differently because of it.
-/

namespace TargetCode

namespace Text

@[simp] theorem escapeHtml_empty : escapeHtml "" = "" :=
  rfl

theorem escapeHtml_append (s t : String) : escapeHtml (s ++ t) = escapeHtml s ++ escapeHtml t := by
  rw [escapeHtml, String.toList_append, List.flatMap_append, String.ofList_append]
  rfl

theorem escapeHtml_join (pieces : List String) :
    escapeHtml (String.join pieces) = String.join (pieces.map escapeHtml) := by
  induction pieces with
  | nil => rfl
  | cons piece pieces ih =>
      rw [List.map_cons, String.join_cons, String.join_cons, escapeHtml_append, ih]

theorem escapeHtml_singleton (c : Char) :
    escapeHtml (String.singleton c) = String.ofList (htmlChar c) := by
  rw [escapeHtml, String.toList_singleton, List.flatMap_singleton]

end Text

namespace Layer

/-! Each kind of call is escaped in a way of its own. Seen through what a call
appends, how it ends and which edge it reports, they are all alike. -/

@[simp] theorem piece_escapeCall (call : Call) :
    (escapeCall call).piece = Text.escapeHtml call.piece := by
  cases call with
  | char c => exact (Text.escapeHtml_singleton c).symm
  | range s start stop =>
      cases hslice : Text.slice? s start stop <;> simp [escapeCall, Call.piece, hslice]
  | _ => rfl

@[simp] theorem result_escapeCall (call : Call) : (escapeCall call).result = call.result := by
  cases call with
  | range s start stop =>
      cases hslice : Text.slice? s start stop <;> simp [escapeCall, Call.result, hslice]
  | _ => rfl

@[simp] theorem boundary?_escapeCall (call : Call) :
    (escapeCall call).boundary? = call.boundary? := by
  cases call with
  | range s start stop =>
      cases hslice : Text.slice? s start stop <;> simp [escapeCall, Call.boundary?, hslice]
  | _ => rfl

end Layer

/-! ### Bases that collect text -/

namespace Base

/-- The text that has been collected. A device keeps bytes instead. -/
def content? : Base → Option String
  | .buffer content | .recorder content _ => some content
  | .device _ => none

/-- The edges of regions that have been noticed. -/
def boundaries : Base → List Boundary
  | .recorder _ boundaries => boundaries
  | .buffer _ | .device _ => []

/-- The base with more text, and with more edges if it takes notice of them. -/
def keep (b : Base) (text : String) (edges : List Boundary) : Base :=
  match b with
  | .buffer content => .buffer (content ++ text)
  | .recorder content boundaries => .recorder (content ++ text) (boundaries ++ edges)
  | .device d => .device d

@[simp] theorem keep_empty (b : Base) : b.keep "" [] = b := by
  cases b <;> simp [keep]

theorem keep_keep (b : Base) (text more : String) (edges others : List Boundary) :
    (b.keep text edges).keep more others = b.keep (text ++ more) (edges ++ others) := by
  cases b <;> simp [keep, String.append_assoc]

theorem content?_keep {b : Base} {content : String} (h : b.content? = some content)
    (text : String) (edges : List Boundary) :
    (b.keep text edges).content? = some (content ++ text) := by
  cases b <;> simp_all [content?, keep]

theorem boundaries_keep (b : Base) (text more : String) (edges : List Boundary) :
    (b.keep text edges).boundaries = (b.keep more edges).boundaries := by
  cases b <;> rfl

theorem perform_of_content? {b : Base} {content : String} (h : b.content? = some content)
    (call : Call) :
    b.perform call = (b.keep call.piece call.boundary?.toList, call.result) := by
  cases b with
  | buffer text =>
      cases call with
      | range s start stop =>
          cases hslice : Text.slice? s start stop <;>
            simp [perform, append, keep, Call.piece, Call.result, hslice]
      | _ => simp [perform, append, mark, keep, Call.piece, Call.result]
  | recorder text boundaries => exact perform_recorder text boundaries call
  | device d => simp [content?] at h

end Base

/-! ### Runs -/

namespace Sink

/-- How each of several calls ends. -/
def results (s : Sink) : List Call → List (Except StreamError Unit)
  | [] => []
  | call :: calls => (s.perform call).result :: (s.perform call).sink.results calls

/-- Whatever the sink below, calls through the layer are its escaped calls. -/
theorem run_escapeHtml (s : Sink) (calls : List Call) :
    (layered .escapeHtml s).run calls = layered .escapeHtml (s.run (calls.map Layer.escapeCall)) ∧
      (layered .escapeHtml s).results calls = s.results (calls.map Layer.escapeCall) := by
  induction calls generalizing s with
  | nil => exact ⟨rfl, rfl⟩
  | cons call calls ih =>
      obtain ⟨hrun, hresults⟩ := ih (s.perform (Layer.escapeCall call)).sink
      exact ⟨hrun, congrArg (_ :: ·) hresults⟩

theorem run_of_content? {b : Base} {content : String} (h : b.content? = some content)
    (calls : List Call) :
    (base b).run calls =
        base (b.keep (String.join (calls.map Call.piece)) (calls.filterMap Call.boundary?)) ∧
      (base b).results calls = calls.map Call.result := by
  induction calls generalizing b content with
  | nil => exact ⟨by simp [run], rfl⟩
  | cons call calls ih =>
      have hperform : (base b).perform call =
          ⟨base (b.keep call.piece call.boundary?.toList), call.result, []⟩ := by
        rw [perform, Base.perform_of_content? h]
      obtain ⟨hrun, hresults⟩ := ih (Base.content?_keep h call.piece call.boundary?.toList)
      constructor
      · rw [run, List.foldl_cons, hperform, ← run, hrun, Base.keep_keep, List.map_cons,
          String.join_cons]
        cases hboundary : call.boundary? <;> simp [hboundary]
      · rw [results, hperform, hresults, List.map_cons]

/-- A sink in memory under the layer: nothing but the text is different. -/
theorem run_escapeHtml_of_content? {b : Base} {content : String} (h : b.content? = some content)
    (calls : List Call) :
    (layered .escapeHtml (base b)).run calls = layered .escapeHtml (base (b.keep
        (Text.escapeHtml (String.join (calls.map Call.piece)))
        (calls.filterMap Call.boundary?))) ∧
      (layered .escapeHtml (base b)).results calls = calls.map Call.result := by
  obtain ⟨hrun, hresults⟩ := run_escapeHtml (base b) calls
  obtain ⟨hbase, hbaseResults⟩ := run_of_content? h (calls.map Layer.escapeCall)
  rw [hrun, hresults, hbase, hbaseResults, Text.escapeHtml_join]
  simp only [List.map_map, List.filterMap_map, Function.comp_def, Layer.piece_escapeCall,
    Layer.boundary?_escapeCall, Layer.result_escapeCall, and_self]

/-- Nothing is held back, so completing the value adds nothing. -/
theorem finish_escapeHtml_of_content? {b : Base} {content : String}
    (h : b.content? = some content) (disposal : Disposal) :
    (layered .escapeHtml (base b)).finish disposal =
      ⟨layered .escapeHtml (base b), .ok (), []⟩ := by
  have hflush : b.perform .flush = (b, .ok ()) := by
    rw [Base.perform_of_content? h]
    simp [Call.piece, Call.boundary?, Call.result]
  rw [finish]
  split
  · simp [perform, Layer.step, Layer.escapeCall, hflush]
  · rfl

end Sink

namespace Registry

/-- The form for streams is always found, and it puts one layer on the sink. -/
theorem stream_escapeHtml (sink : Sink) :
    builtin.stream "escapeHtml" [] sink =
      ⟨sink, [.openingStream "escapeHtml"], .ok ([.escapeHtml], {})⟩ :=
  rfl

/-- A sink in memory, and any calls on it, with and without the streaming form
of `escapeHtml` in between. The form can be opened; each call ends in the same
way, and an invalid range with the offsets and the length it has in the call;
the same edges of regions arrive; and what is collected is the escaped form of
all pieces of text taken together. -/
theorem streamed_escape_is_escape_of_whole {base : Base} {content : String}
    (h : base.content? = some content) (calls : List Call) :
    ∃ layers disposal,
      builtin.stream "escapeHtml" [] (.base base) =
        ⟨.base base, [.openingStream "escapeHtml"], .ok (layers, disposal)⟩ ∧
      let bare := Sink.base base
      let wrapped := bare.cover layers
      let text := String.join (calls.map Call.piece)
      (bare.results calls = calls.map Call.result ∧
        wrapped.results calls = bare.results calls) ∧
      (wrapped.run calls).bottom.boundaries = (bare.run calls).bottom.boundaries ∧
      ((bare.run calls).bottom.content? = some (content ++ text) ∧
        (wrapped.run calls).bottom.content? = some (content ++ Text.escapeHtml text)) ∧
      (wrapped.run calls).finish disposal = ⟨wrapped.run calls, .ok (), []⟩ := by
  refine ⟨[.escapeHtml], {}, stream_escapeHtml _, ?_⟩
  intro bare wrapped text
  obtain ⟨hbare, hresults⟩ := Sink.run_of_content? h calls
  obtain ⟨hwrapped, hsame⟩ := Sink.run_escapeHtml_of_content? h calls
  have hescaped := Base.content?_keep h (Text.escapeHtml text) (calls.filterMap Call.boundary?)
  rw [show bare.run calls = _ from hbare, show wrapped.run calls = _ from hwrapped]
  exact ⟨⟨hresults, hsame.trans hresults.symm⟩, Base.boundaries_keep ..,
    ⟨Base.content?_keep h .., hescaped⟩, Sink.finish_escapeHtml_of_content? hescaped _⟩

/-- A value written in pieces of every kind, with an invalid range and a region
in between, after text that is not part of it. -/
theorem streamed_escape_is_escape_of_whole_mixed :
    let base := Base.recorder "<p>" []
    let region : Region := ⟨1, none, false⟩
    let calls : List Call := [.text "a&l", .enter region, .char '<', .range "é'" 1 3,
      .range "é'" 0 3, .exit, .logging ⟨"f", "\"", []⟩, .flush]
    base.content? = some "<p>" ∧
      ∃ layers disposal,
        (builtin.stream "escapeHtml" [] (.base base)).result = .ok (layers, disposal) ∧
        let wrapped := (Sink.base base).cover layers
        wrapped.results calls =
          [.ok (), .ok (), .ok (), .error (.invalidRange 1 3 3), .ok (), .ok (), .ok (), .ok ()] ∧
        (wrapped.run calls).bottom.boundaries = [.enter region, .exit] ∧
        (wrapped.run calls).bottom.content? = some "<p>a&amp;l&lt;é&#39;&quot;" := by
  intro base region calls
  have hbase : base.content? = some "<p>" := rfl
  obtain ⟨layers, disposal, hstream, ⟨hresults, hsame⟩, hboundaries, ⟨-, hcontent⟩, -⟩ :=
    streamed_escape_is_escape_of_whole hbase calls
  refine ⟨hbase, layers, disposal, congrArg Opening.result hstream, ?_, ?_, ?_⟩
  · exact hsame.trans (hresults.trans (by decide))
  · exact hboundaries.trans (by decide)
  · exact hcontent.trans (by decide)

end Registry

end TargetCode
