import TargetCode.Proofs.Hoisting

/-!
What is written, said without a page.

A statement that is on the page already is passed over together with all that
it depends on, and it counts as written only once its own line is there. The
result is nevertheless the plain one: walk through the dependencies of every
appended statement as if nothing had been written before, and of what is met
on the way keep the first of several equal statements. Neither the dialect
nor the indent has a part in this.
-/

namespace TargetCode

/-- Why a traversal comes to a statement. -/
inductive Role where
  /-- Another statement depends on it. -/
  | initial
  /-- It was appended. -/
  | appended
  deriving DecidableEq

structure Occurrence where
  statement : Statement
  role : Role

namespace Statement

/-- Neither the statement nor anything that it depends on, directly or through
other statements, is a sequence. -/
inductive SequenceFree : Statement → Prop
  | intro {s : Statement} (line : s.isSequence = false)
      (initial : ∀ t ∈ s.initial, SequenceFree t) : SequenceFree s

/-- Everything that a statement depends on, as often as it is needed and each
time before what needs it, and then the statement. -/
def postorder (s : Statement) : List Statement :=
  s.initial.attach.flatMap (fun t => postorder t.1) ++ [s]
termination_by sizeOf s
decreasing_by exact sizeOf_lt_of_mem_initial t.2

theorem postorder_eq (s : Statement) : s.postorder = s.initial.flatMap postorder ++ [s] := by
  rw [postorder, List.flatMap_subtype (fun _ _ => rfl), List.unattach_attach]

theorem mem_postorder {s t : Statement} :
    t ∈ s.postorder ↔ t ∈ s.initial.flatMap postorder ∨ t = s := by
  rw [postorder_eq, List.mem_append, List.mem_singleton]

/-- To prove something of every statement, prove it from the statements that
it depends on. -/
@[elab_as_elim]
theorem initialInduction {motive : Statement → Prop}
    (step : ∀ s, (∀ t ∈ s.initial, motive t) → motive s) (s : Statement) : motive s :=
  dependencyInduction (fun _ _ => step _ (by simp [initial])) (fun s _ ih => step s ih) s

theorem sizeOf_le_of_mem_postorder {s t : Statement} (h : t ∈ s.postorder) :
    sizeOf t ≤ sizeOf s := by
  induction s using initialInduction with
  | step s ih =>
      rcases mem_postorder.1 h with h | rfl
      · obtain ⟨u, hu, ht⟩ := List.mem_flatMap.1 h
        exact Nat.le_trans (ih u hu ht) (Nat.le_of_lt (sizeOf_lt_of_mem_initial hu))
      · exact Nat.le_refl _

/-- A statement is not among the ones that it depends on. -/
theorem not_mem_flatMap_postorder (s : Statement) : s ∉ s.initial.flatMap postorder := by
  intro h
  obtain ⟨u, hu, hs⟩ := List.mem_flatMap.1 h
  have hle := sizeOf_le_of_mem_postorder hs
  have hlt := sizeOf_lt_of_mem_initial hu
  omega

/-- It is enough to look at what the traversal finds. -/
theorem sequenceFree_iff (s : Statement) :
    s.SequenceFree ↔ ∀ t ∈ s.postorder, t.isSequence = false := by
  constructor
  · intro hs
    induction hs with
    | intro hline _ ih =>
        intro t ht
        rcases mem_postorder.1 ht with ht | rfl
        · obtain ⟨u, hu, ht⟩ := List.mem_flatMap.1 ht
          exact ih u hu t ht
        · exact hline
  · intro h
    induction s using initialInduction with
    | step s ih =>
        refine ⟨h s (mem_postorder.2 (.inr rfl)), fun u hu => ih u hu fun t ht => ?_⟩
        exact h t (mem_postorder.2 (.inl (List.mem_flatMap.2 ⟨u, hu, ht⟩)))

instance : DecidablePred SequenceFree := fun s => decidable_of_iff _ (sequenceFree_iff s).symm

/-- Without sequences everything in the traversal has a line that is needed. -/
theorem SequenceFree.needs {s t : Statement} (hs : s.SequenceFree)
    (h : t ∈ s.initial.flatMap postorder) : Needs s.initial t := by
  induction hs with
  | intro _ hinitial ih =>
      obtain ⟨u, hu, ht⟩ := List.mem_flatMap.1 h
      obtain ⟨hline, -⟩ := hinitial u hu
      have hself : Needs _ u := .leaf hu (by rw [leaves_eq_self hline]; exact List.mem_cons_self)
      rcases mem_postorder.1 ht with ht | rfl
      · exact .deeper hself (ih u hu ht)
      · exact hself

/-- The traversal for statements that something depends on. -/
def initialOccurrences (statements : List Statement) : List Occurrence :=
  (statements.flatMap postorder).map (⟨·, .initial⟩)

/-- The traversal for a statement with its own role. -/
def occurrences (s : Statement) (role : Role) : List Occurrence :=
  initialOccurrences s.initial ++ [⟨s, role⟩]

end Statement

/-- The statements at the given places, without those that something depends
on and that were kept before. `kept` is what has been kept up to here. -/
def prune (kept : List Statement) : List Occurrence → List Statement
  | [] => []
  | o :: rest =>
    if o.role = .initial ∧ o.statement ∈ kept then prune kept rest
    else o.statement :: prune (o.statement :: kept) rest

theorem prune_append (kept : List Statement) (first second : List Occurrence) :
    prune kept (first ++ second) =
      prune kept first ++ prune ((prune kept first).reverse ++ kept) second := by
  induction first generalizing kept with
  | nil => rfl
  | cons o first ih =>
      rw [List.cons_append, prune, prune]
      split
      · exact ih kept
      · rw [ih, List.reverse_cons, List.append_assoc]
        rfl

theorem exists_occurrence_of_mem_prune {kept : List Statement} {occurrences : List Occurrence}
    {s : Statement} (h : s ∈ prune kept occurrences) : ∃ o ∈ occurrences, o.statement = s := by
  induction occurrences generalizing kept with
  | nil => simp [prune] at h
  | cons o occurrences ih =>
      rw [prune] at h
      split at h
      · obtain ⟨o', ho', hs⟩ := ih h
        exact ⟨o', List.mem_cons_of_mem _ ho', hs⟩
      · rcases List.mem_cons.1 h with rfl | h
        · exact ⟨o, List.mem_cons_self, rfl⟩
        · obtain ⟨o', ho', hs⟩ := ih h
          exact ⟨o', List.mem_cons_of_mem _ ho', hs⟩

/-- Nothing is kept of what was kept before. -/
theorem prune_eq_nil {kept : List Statement} {statements : List Statement}
    (h : ∀ s ∈ statements, s ∈ kept) :
    prune kept (statements.map (⟨·, .initial⟩)) = [] := by
  induction statements with
  | nil => rfl
  | cons s statements ih =>
      obtain ⟨hs, hstatements⟩ := List.forall_mem_cons.1 h
      rw [List.map_cons, prune, if_pos ⟨rfl, hs⟩]
      exact ih hstatements

/-! ### Writing -/

namespace Page

/-- Writing a statement follows the pruned traversal. -/
def FollowsTraversal (s : Statement) : Prop :=
  ∀ (p : Page) (role : Role), Ordered p.written → (role = .initial → s ∉ p.written) →
    p.write s = p.putAll (prune p.written (s.occurrences role))

/-- A statement that is on the page is passed over, and so is all that the
traversal finds below it, since the page has that as well. -/
theorem prune_postorder_eq_nil {written : List Statement} (hwritten : Ordered written)
    {s : Statement} (hfree : s.SequenceFree) (hs : s ∈ written) :
    prune written (s.postorder.map (⟨·, .initial⟩)) = [] := by
  apply prune_eq_nil
  intro t ht
  rcases Statement.mem_postorder.1 ht with ht | rfl
  · exact hwritten.mem_of_needs hs (hfree.needs ht)
  · exact hs

theorem writeMissing_eq_putAll {statements : List Statement}
    (hfree : ∀ s ∈ statements, s.SequenceFree) (hwrite : ∀ s ∈ statements, FollowsTraversal s)
    {p : Page} (hp : Ordered p.written) :
    p.writeMissing statements =
      p.putAll (prune p.written (Statement.initialOccurrences statements)) := by
  induction statements generalizing p with
  | nil => rfl
  | cons s statements ih =>
      obtain ⟨hs, hstatements⟩ := List.forall_mem_cons.1 hwrite
      obtain ⟨hsfree, hfree⟩ := List.forall_mem_cons.1 hfree
      have hsplit : Statement.initialOccurrences (s :: statements) =
          s.postorder.map (⟨·, .initial⟩) ++ Statement.initialOccurrences statements := by
        rw [Statement.initialOccurrences, List.flatMap_cons, List.map_append]
        rfl
      rw [writeMissing_cons, hsplit, prune_append]
      -- If the page has `s`, it has everything below `s` too, and the part of
      -- the traversal that the writer does not visit adds nothing.
      by_cases hmem : s ∈ p.written
      · rw [if_pos hmem, prune_postorder_eq_nil hp hsfree hmem]
        exact ih hfree hstatements hp
      · rw [if_neg hmem, ih hfree hstatements (extends_write s p hp).ordered, putAll_append]
        have hfirst := hs p .initial hp fun _ => hmem
        have hpostorder : s.occurrences .initial = s.postorder.map (⟨·, .initial⟩) := by
          rw [Statement.postorder_eq, List.map_append]
          rfl
        rw [hpostorder] at hfirst
        rw [hfirst, putAll_written]

theorem followsTraversal {s : Statement} (hfree : s.SequenceFree) : FollowsTraversal s := by
  induction hfree with
  | @intro s hline hinitial ih =>
      intro p role hp hfresh
      -- What was kept on the way to `s` is smaller than `s`, so its own
      -- occurrence at the end is kept as well.
      have hkept : ¬(role = .initial ∧
          s ∈ (prune p.written (Statement.initialOccurrences s.initial)).reverse ++ p.written) := by
        rintro ⟨hrole, hmem⟩
        rcases List.mem_append.1 hmem with hmem | hmem
        · obtain ⟨o, ho, hs⟩ := exists_occurrence_of_mem_prune (List.mem_reverse.1 hmem)
          obtain ⟨t, ht, rfl⟩ := List.mem_map.1 ho
          exact s.not_mem_flatMap_postorder (hs ▸ ht)
        · exact hfresh hrole hmem
      rw [write_of_not_sequence p hline, writeMissing_eq_putAll hinitial ih hp,
        Statement.occurrences, prune_append, putAll_append, prune, if_neg hkept]
      rfl

end Page

namespace Draft

theorem append_of_pending_nil {d : Draft} (hpending : d.pending = []) {s : Statement}
    (hs : s.isSequence = false) : d.append s = { d with page := d.page.write s } := by
  have hflush : d.flush = d := by
    cases d
    subst hpending
    rfl
  match s, hs with
  | .expression e doc, _ => rw [append, hflush]
  | .declaration name binding (some e) doc, _ => rw [append, hflush]
  | .declaration name binding none doc, _ => rw [append]

theorem run_append_eq_putAll {statements : List Statement}
    (hfree : ∀ s ∈ statements, s.SequenceFree) {d : Draft} (hpending : d.pending = [])
    (hd : Ordered d.page.written) :
    d.run (statements.map .append) =
      { d with page := d.page.putAll (prune d.page.written
          (statements.flatMap (Statement.occurrences · .appended))) } := by
  induction statements generalizing d with
  | nil => rfl
  | cons s statements ih =>
      obtain ⟨hs, hfree⟩ := List.forall_mem_cons.1 hfree
      obtain ⟨hline, -⟩ := id hs
      have hfirst := Page.followsTraversal hs d.page .appended hd (by simp)
      have hrest := ih (d := { d with page := d.page.write s }) hfree hpending
        (Page.extends_write s d.page hd).ordered
      rw [List.map_cons, run, List.foldl_cons, ← run, step, append_of_pending_nil hpending hline,
        hrest, List.flatMap_cons, prune_append, Page.putAll_append, hfirst, Page.putAll_written]

theorem run_indentMore (d : Draft) (level : Nat) :
    d.run (List.replicate level .indentMore) =
      { d with page := { d.page with depth := d.page.depth + level } } := by
  induction level generalizing d with
  | zero => rfl
  | succ level ih =>
      rw [List.replicate_succ, run, List.foldl_cons, ← run, ih, step, indentMore,
        Nat.add_assoc, Nat.add_comm 1]

/-- What is on the page after statements without sequences were appended to an
empty draft, at any level of indent: the plain traversal of their
dependencies, in which the first of several equal initial statements is kept.
The dialect and the indent only decide how each of these is spelled. -/
theorem appended_lines_are_pruned_traversal (dialect : Dialect) (unit : String) (level : Nat)
    (statements : List Statement) (hfree : ∀ s ∈ statements, s.SequenceFree) :
    let draft := ((blank dialect).indentedBy unit).run
      (List.replicate level .indentMore ++ statements.map .append)
    let lines := prune [] (statements.flatMap (Statement.occurrences · .appended))
    draft.page.written.reverse = lines ∧
      draft.finish = String.join (lines.map fun s => Entry.text dialect unit ⟨level, s⟩) := by
  intro draft lines
  have hdraft : draft = ⟨.ofEntries dialect unit level (lines.map (Entry.mk level)), []⟩ := by
    have hstart : ((blank dialect).indentedBy unit).run (List.replicate level .indentMore) =
        ⟨.ofEntries dialect unit level [], []⟩ := by
      rw [run_indentMore, show ((blank dialect).indentedBy unit).page.depth = 0 from rfl,
        Nat.zero_add]
      rfl
    have happended := run_append_eq_putAll (d := ⟨.ofEntries dialect unit level [], []⟩) hfree rfl
      trivial
    rw [show draft = _ from List.foldl_append, ← run, ← run, hstart, happended,
      Page.putAll_ofEntries]
    rfl
  constructor
  · rw [hdraft]
    simp [Page.ofEntries, Function.comp_def]
  · rw [hdraft]
    exact congrArg String.join List.map_map

/-- A temporary `b` that needs a temporary `a`, which is also appended and then
needed directly. -/
theorem appended_lines_are_pruned_traversal_shared :
    let a : Statement := .declaration "a" .constant (some (.literal (.int 1))) none
    let b : Statement := .declaration "b" .variable (some (.hoisted [a] (.name "a"))) none
    let f : Statement := .expression (.call (.name "f") [.hoisted [b] (.name "b")]) none
    let g : Statement :=
      .expression (.call (.name "g") [.hoisted [b] (.name "b"), .hoisted [a] (.name "a")]) none
    let draft (dialect : Dialect) :=
      ((blank dialect).indentedBy "  ").run (.indentMore :: [f, a, g].map .append)
    (∀ s ∈ [f, a, g], s.SequenceFree) ∧
      (∀ dialect, (draft dialect).page.written.reverse = [a, b, f, a, g]) ∧
      (draft .javascript).finish =
        "  const a = 1;\n  let b = a;\n  f(b);\n  const a = 1;\n  g(b, a);\n" ∧
      (draft .python).finish = "  a = 1\n  b = a\n  f(b)\n  a = 1\n  g(b, a)\n" := by
  intro a b f g draft
  have hfree : ∀ s ∈ [f, a, g], s.SequenceFree := by decide +kernel
  have hlines := fun dialect => appended_lines_are_pruned_traversal dialect "  " 1 [f, a, g] hfree
  refine ⟨hfree, fun dialect => (hlines dialect).1.trans ?_, (hlines .javascript).2.trans ?_,
    (hlines .python).2.trans ?_⟩
  all_goals decide +kernel

end Draft

end TargetCode
