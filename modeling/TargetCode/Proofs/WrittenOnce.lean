import TargetCode.Proofs.Hoisting

/-!
How often a statement is written because it waits.

The visits of the writer to statements are recorded next to the pages that it
goes through. A statement that is visited in a queue is written or, if it is
on the page already, skipped; one that is appended, or is a part of a
sequence, is written in any case. An expression statement or a declaration
is written at most once because it waits, since it is on the page from then
on. A sequence never is, so it is written each time that its turn comes.
-/

namespace TargetCode

/-- What becomes of a statement that the writer visits. -/
inductive Fate where
  /-- It is written because its turn came in a queue. -/
  | queued
  /-- Its turn came in a queue, but it is on the page already. -/
  | skipped
  /-- It is written as a part of a sequence or because it was appended. -/
  | direct
  deriving DecidableEq

structure Visit where
  statement : Statement
  fate : Fate
  deriving DecidableEq

namespace Page

/-- Gathers visits along a list, while `next` leads from page to page. -/
def gather {α : Type} (next : Page → α → Page) (visits : Page → α → List Visit) :
    Page → List α → List Visit
  | _, [] => []
  | p, a :: as => visits p a ++ gather next visits (next p a) as

theorem gather_map {α β : Type} (f : α → β) (next : Page → β → Page)
    (visits : Page → β → List Visit) (p : Page) (as : List α) :
    gather (fun p a => next p (f a)) (fun p a => visits p (f a)) p as =
      gather next visits p (as.map f) := by
  induction as generalizing p with
  | nil => rfl
  | cons a as ih => rw [List.map_cons, gather, gather, ih]

/-- The visits on the way when a statement is written. -/
def visits (p : Page) : Statement → List Visit
  | .sequence parts =>
    gather (fun p s => p.write s.1) (fun p s => ⟨s.1, .direct⟩ :: p.visits s.1) p parts.attach
  | s =>
    gather (fun p t => if t.1 ∈ p.written then p else p.write t.1)
      (fun p t => if t.1 ∈ p.written then [⟨t.1, .skipped⟩] else ⟨t.1, .queued⟩ :: p.visits t.1)
      p s.initial.attach
termination_by s => sizeOf s
decreasing_by
  · exact Statement.sizeOf_lt_of_mem_parts s.2
  · exact Statement.sizeOf_lt_of_mem_initial t.2

/-- The visits when statements are written that are not on the page yet. -/
def visitsMissing (p : Page) (statements : List Statement) : List Visit :=
  gather (fun p s => if s ∈ p.written then p else p.write s)
    (fun p s => if s ∈ p.written then [⟨s, .skipped⟩] else ⟨s, .queued⟩ :: p.visits s) p statements

/-- The visits when statements are written one after the other. -/
def visitsAll (p : Page) (statements : List Statement) : List Visit :=
  gather write (fun p s => ⟨s, .direct⟩ :: p.visits s) p statements

theorem visits_sequence (p : Page) (parts : List Statement) :
    p.visits (.sequence parts) = p.visitsAll parts := by
  rw [visits]
  rw [gather_map Subtype.val write (fun p s => ⟨s, .direct⟩ :: p.visits s),
    List.attach_map_subtype_val]
  rfl

theorem visits_of_not_sequence (p : Page) {s : Statement} (h : s.isSequence = false) :
    p.visits s = p.visitsMissing s.initial := by
  have hmissing := gather_map (Subtype.val (p := (· ∈ s.initial)))
    (fun p s => if s ∈ p.written then p else p.write s)
    (fun p s => if s ∈ p.written then [⟨s, .skipped⟩] else ⟨s, .queued⟩ :: p.visits s) p
    s.initial.attach
  rw [List.attach_map_subtype_val] at hmissing
  cases s with
  | sequence parts => simp [Statement.isSequence] at h
  | expression e doc =>
      rw [visits]
      · exact hmissing
      · simp
  | declaration name binding e doc =>
      rw [visits]
      · exact hmissing
      · simp

theorem visitsMissing_cons (p : Page) (s : Statement) (statements : List Statement) :
    p.visitsMissing (s :: statements) =
      (if s ∈ p.written then [⟨s, .skipped⟩] else ⟨s, .queued⟩ :: p.visits s) ++
        (if s ∈ p.written then p else p.write s).visitsMissing statements :=
  rfl

theorem visitsAll_cons (p : Page) (s : Statement) (statements : List Statement) :
    p.visitsAll (s :: statements) =
      ⟨s, .direct⟩ :: p.visits s ++ (p.write s).visitsAll statements :=
  rfl

/-! ### Accounts -/

/-- The visits account for the way from one page to another: for each new
line there is one visit that wrote it, and what is written in a queue was not
on the page before. -/
structure Accounts (p q : Page) (visits : List Visit) : Prop where
  lines : ∀ s, s.isSequence = false →
    q.written.count s = p.written.count s + visits.count ⟨s, .queued⟩ + visits.count ⟨s, .direct⟩
  fresh : ∀ s, s.isSequence = false → ⟨s, .queued⟩ ∈ visits → s ∉ p.written
  once : ∀ s, s.isSequence = false → visits.count ⟨s, .queued⟩ ≤ 1
  sequences : ∀ s, s.isSequence = true → ⟨s, .skipped⟩ ∉ visits

theorem accounts_nil {p q : Page} (h : q.written = p.written) : p.Accounts q [] :=
  ⟨by simp [h], by simp, by simp, by simp⟩

theorem Accounts.mem_of_queued {p q : Page} {visits : List Visit} (h : p.Accounts q visits)
    {s : Statement} (hs : s.isSequence = false) (hvisit : ⟨s, .queued⟩ ∈ visits) :
    s ∈ q.written := by
  have hlines := h.lines s hs
  have hpos := List.count_pos_iff.2 hvisit
  exact List.count_pos_iff.1 (by omega)

theorem Accounts.mem_of_mem {p q : Page} {visits : List Visit} (h : p.Accounts q visits)
    {s : Statement} (hs : s.isSequence = false) (hmem : s ∈ p.written) : s ∈ q.written := by
  have hlines := h.lines s hs
  have hpos := List.count_pos_iff.2 hmem
  exact List.count_pos_iff.1 (by omega)

theorem Accounts.trans {p q r : Page} {first second : List Visit} (h : p.Accounts q first)
    (h' : q.Accounts r second) : p.Accounts r (first ++ second) where
  lines s hs := by
    rw [h'.lines s hs, h.lines s hs, List.count_append, List.count_append]
    omega
  fresh s hs hvisit := by
    rcases List.mem_append.1 hvisit with hvisit | hvisit
    · exact h.fresh s hs hvisit
    · exact fun hmem => h'.fresh s hs hvisit (h.mem_of_mem hs hmem)
  once s hs := by
    rw [List.count_append]
    by_cases hvisit : ⟨s, .queued⟩ ∈ first
    · -- It is on the page after the first part, so its turn is skipped later.
      have hnot : ⟨s, .queued⟩ ∉ second := fun hsecond =>
        h'.fresh s hs hsecond (h.mem_of_queued hs hvisit)
      rw [List.count_eq_zero.2 hnot]
      exact h.once s hs
    · rw [List.count_eq_zero.2 hvisit, Nat.zero_add]
      exact h'.once s hs
  sequences s hs hvisit := by
    rcases List.mem_append.1 hvisit with hvisit | hvisit
    · exact h.sequences s hs hvisit
    · exact h'.sequences s hs hvisit

theorem accounts_skipped {p : Page} (hp : Ordered p.written) {s : Statement}
    (hs : s ∈ p.written) : p.Accounts p [⟨s, .skipped⟩] where
  lines t _ := by simp
  fresh t _ hvisit := by simp at hvisit
  once t _ := by simp
  sequences t ht hvisit := by
    obtain rfl : t = s := by simpa using hvisit
    rw [hp.isSequence_eq_false hs] at ht
    contradiction

/-- The visit to a statement that is written, before the visits on the way.
These are all to smaller statements, so it is not among them. -/
theorem Accounts.visit {p q : Page} {visits : List Visit} {s : Statement} {fate : Fate}
    (h : p.Accounts q visits) (hs : s.isSequence = false) (hfate : fate ≠ .skipped)
    (hfresh : fate = .queued → s ∉ p.written)
    (hsmaller : ∀ v ∈ visits, sizeOf v.statement < sizeOf s) :
    p.Accounts (q.put s) (⟨s, fate⟩ :: visits) := by
  have hnot : ∀ fate', (⟨s, fate'⟩ : Visit) ∉ visits := fun fate' hvisit =>
    Nat.lt_irrefl _ (hsmaller _ hvisit)
  constructor
  · intro t ht
    have hlines := h.lines t ht
    rw [put_written, List.count_cons, List.count_cons, List.count_cons, hlines]
    by_cases hts : s = t
    · subst t
      cases fate with
      | queued => simp; omega
      | skipped => contradiction
      | direct => simp; omega
    · simp [hts]
  · intro t ht hvisit
    rcases List.mem_cons.1 hvisit with heq | hvisit
    · obtain ⟨rfl, rfl⟩ := Visit.mk.inj heq
      exact hfresh rfl
    · exact h.fresh t ht hvisit
  · intro t ht
    by_cases hts : s = t
    · subst t
      rw [List.count_cons, List.count_eq_zero.2 (hnot .queued)]
      split <;> simp
    · rw [List.count_cons_of_ne (by simp [hts])]
      exact h.once t ht
  · intro t ht hvisit
    rcases List.mem_cons.1 hvisit with heq | hvisit
    · exact hfate (Visit.mk.inj heq).2.symm
    · exact h.sequences t ht hvisit

/-- The visit to a sequence adds no line of its own. -/
theorem Accounts.visitSequence {p q : Page} {visits : List Visit} (h : p.Accounts q visits)
    (parts : List Statement) {fate : Fate} (hfate : fate ≠ .skipped) :
    p.Accounts q (⟨.sequence parts, fate⟩ :: visits) := by
  have hne : ∀ {s : Statement}, s.isSequence = false → Statement.sequence parts ≠ s := by
    rintro s hs rfl
    simp [Statement.isSequence] at hs
  constructor
  · intro s hs
    rw [List.count_cons_of_ne (by simp [hne hs]), List.count_cons_of_ne (by simp [hne hs])]
    exact h.lines s hs
  · intro s hs hvisit
    rcases List.mem_cons.1 hvisit with heq | hvisit
    · exact absurd (Visit.mk.inj heq).1.symm (hne hs)
    · exact h.fresh s hs hvisit
  · intro s hs
    rw [List.count_cons_of_ne (by simp [hne hs])]
    exact h.once s hs
  · intro s hs hvisit
    rcases List.mem_cons.1 hvisit with heq | hvisit
    · exact hfate (Visit.mk.inj heq).2.symm
    · exact h.sequences s hs hvisit

theorem mem_gather {α : Type} {next : Page → α → Page} {visits : Page → α → List Visit}
    {p : Page} {as : List α} {v : Visit} (h : v ∈ gather next visits p as) :
    ∃ q, ∃ a ∈ as, v ∈ visits q a := by
  induction as generalizing p with
  | nil => simp [gather] at h
  | cons a as ih =>
      rw [gather, List.mem_append] at h
      rcases h with h | h
      · exact ⟨p, a, List.mem_cons_self, h⟩
      · obtain ⟨q, b, hb, hv⟩ := ih h
        exact ⟨q, b, List.mem_cons_of_mem _ hb, hv⟩

theorem sizeOf_lt_of_mem_visits (s : Statement) :
    ∀ (p : Page), ∀ v ∈ p.visits s, sizeOf v.statement < sizeOf s := by
  induction s using Statement.dependencyInduction with
  | sequence parts ih =>
      intro p v hv
      rw [visits_sequence] at hv
      obtain ⟨q, s, hs, hv⟩ := mem_gather hv
      have hsize := Statement.sizeOf_lt_of_mem_parts hs
      rcases List.mem_cons.1 hv with rfl | hv
      · exact hsize
      · exact Nat.lt_trans (ih s hs q v hv) hsize
  | line s hs ih =>
      intro p v hv
      rw [visits_of_not_sequence p hs] at hv
      obtain ⟨q, t, ht, hv⟩ := mem_gather hv
      have hsize := Statement.sizeOf_lt_of_mem_initial ht
      split at hv
      · rw [List.mem_singleton.1 hv]
        exact hsize
      · rcases List.mem_cons.1 hv with rfl | hv
        · exact hsize
        · exact Nat.lt_trans (ih t ht q v hv) hsize

/-- Every way of writing a statement is accounted for. -/
def AccountedFor (s : Statement) : Prop :=
  ∀ (p : Page) (fate : Fate), Ordered p.written → fate ≠ .skipped →
    (fate = .queued → s ∉ p.written) → p.Accounts (p.write s) (⟨s, fate⟩ :: p.visits s)

theorem accounts_writeMissing {statements : List Statement}
    (hwrite : ∀ s ∈ statements, AccountedFor s) {p : Page} (hp : Ordered p.written) :
    p.Accounts (p.writeMissing statements) (p.visitsMissing statements) := by
  induction statements generalizing p with
  | nil => exact accounts_nil rfl
  | cons s statements ih =>
      obtain ⟨hs, hstatements⟩ := List.forall_mem_cons.1 hwrite
      rw [writeMissing_cons, visitsMissing_cons]
      by_cases hmem : s ∈ p.written
      · rw [if_pos hmem, if_pos hmem]
        exact (accounts_skipped hp hmem).trans (ih hstatements hp)
      · rw [if_neg hmem, if_neg hmem]
        have hfirst := hs p .queued hp (by decide) fun _ => hmem
        exact hfirst.trans (ih hstatements (extends_write s p hp).ordered)

theorem accounts_writeAll {statements : List Statement}
    (hwrite : ∀ s ∈ statements, AccountedFor s) {p : Page} (hp : Ordered p.written) :
    p.Accounts (statements.foldl write p) (p.visitsAll statements) := by
  induction statements generalizing p with
  | nil => exact accounts_nil rfl
  | cons s statements ih =>
      obtain ⟨hs, hstatements⟩ := List.forall_mem_cons.1 hwrite
      rw [List.foldl_cons, visitsAll_cons]
      have hfirst := hs p .direct hp (by decide) (by simp)
      exact hfirst.trans (ih hstatements (extends_write s p hp).ordered)

theorem accountedFor (s : Statement) : AccountedFor s := by
  induction s using Statement.dependencyInduction with
  | sequence parts ih =>
      intro p fate hp hfate _
      rw [write_sequence, visits_sequence]
      exact (accounts_writeAll ih hp).visitSequence parts hfate
  | line s hs ih =>
      intro p fate hp hfate hfresh
      have hsmaller := sizeOf_lt_of_mem_visits s p
      rw [visits_of_not_sequence p hs] at hsmaller ⊢
      rw [write_of_not_sequence p hs]
      exact (accounts_writeMissing ih hp).visit hs hfate hfresh hsmaller

end Page

/-! ### Accounts of a run -/

namespace Draft

/-- The visits when what is waiting is written. -/
def visitsFlush (d : Draft) : List Visit :=
  d.page.visitsMissing d.pending

mutual

def visitsAppend (d : Draft) : Statement → List Visit
  | .sequence parts => ⟨.sequence parts, .direct⟩ :: d.visitsAppendAll parts
  | .expression e doc =>
    d.visitsFlush ++ ⟨.expression e doc, .direct⟩ :: d.flush.page.visits (.expression e doc)
  | .declaration name binding (some e) doc =>
    d.visitsFlush ++ ⟨.declaration name binding (some e) doc, .direct⟩ ::
      d.flush.page.visits (.declaration name binding (some e) doc)
  | .declaration name binding none doc =>
    ⟨.declaration name binding none doc, .direct⟩ ::
      d.page.visits (.declaration name binding none doc)
termination_by structural s => s

def visitsAppendAll (d : Draft) : List Statement → List Visit
  | [] => []
  | s :: statements => d.visitsAppend s ++ (d.append s).visitsAppendAll statements
termination_by structural statements => statements

end

def visits (d : Draft) : Step → List Visit
  | .enqueue _ => []
  | .flush => d.visitsFlush
  | .fragment e => (d.enqueue e.initial).visitsFlush
  | .append s => d.visitsAppend s
  | .indentMore => []
  | .indentLess => []

/-- All visits of a run up to the finished text. -/
def visitsRun (d : Draft) : List Step → List Visit
  | [] => d.visitsFlush
  | st :: steps => d.visits st ++ (d.step st).visitsRun steps

theorem accounts_flush {d : Draft} (hd : Ordered d.page.written) :
    d.page.Accounts d.flush.page d.visitsFlush :=
  Page.accounts_writeMissing (fun s _ => Page.accountedFor s) hd

theorem accounts_direct {p : Page} (hp : Ordered p.written) (s : Statement) :
    p.Accounts (p.write s) (⟨s, .direct⟩ :: p.visits s) :=
  Page.accountedFor s p .direct hp (by decide) (by simp)

mutual

theorem accounts_append : ∀ (s : Statement) {d : Draft}, Ordered d.page.written →
    d.page.Accounts (d.append s).page (d.visitsAppend s)
  | .sequence parts, _, hd => (accounts_appendAll parts hd).visitSequence parts (by decide)
  | .expression e doc, d, hd =>
      (accounts_flush hd).trans (accounts_direct (extends_flush hd).page.ordered _)
  | .declaration name binding (some e) doc, d, hd =>
      (accounts_flush hd).trans (accounts_direct (extends_flush hd).page.ordered _)
  | .declaration name binding none doc, _, hd => accounts_direct hd _

theorem accounts_appendAll : ∀ (statements : List Statement) {d : Draft},
    Ordered d.page.written →
    d.page.Accounts (d.appendAll statements).page (d.visitsAppendAll statements)
  | [], _, _ => Page.accounts_nil rfl
  | s :: statements, _, hd =>
      (accounts_append s hd).trans
        (accounts_appendAll statements (extends_append s hd).page.ordered)

end

theorem accounts_step {d : Draft} (hd : Ordered d.page.written) (st : Step) :
    d.page.Accounts (d.step st).page (d.visits st) := by
  cases st with
  | enqueue statements => exact Page.accounts_nil rfl
  | flush => exact accounts_flush hd
  | fragment e => exact accounts_flush (extends_enqueue hd e.initial).page.ordered
  | append s => exact accounts_append s hd
  | indentMore => exact Page.accounts_nil rfl
  | indentLess => exact Page.accounts_nil rfl

theorem Holds.accounts_run {d : Draft} {dialect : Dialect} {unit : String} {level : Nat}
    {entries : List Entry} {given : List Statement}
    (h : d.Holds dialect unit level entries given) (steps : List Step) :
    d.page.Accounts (d.run steps).flush.page (d.visitsRun steps) := by
  induction steps generalizing d level entries given with
  | nil => exact accounts_flush h.ordered
  | cons st steps ih => exact (accounts_step h.ordered st).trans (ih (h.step st))

/-- How often the turn of a statement comes in a queue, whether it is written
then or not. -/
def turns (visits : List Visit) (s : Statement) : Nat :=
  visits.count ⟨s, .queued⟩ + visits.count ⟨s, .skipped⟩

/-- Over a whole run a statement is written at most once because it waits,
unless it is a sequence whose turn comes more than once. Besides these writes
the page has only the lines of what was appended and of parts of sequences. -/
theorem queued_at_most_once_iff (dialect : Dialect) (unit : String) (steps : List Step)
    (s : Statement) :
    let start := (blank dialect).indentedBy unit
    let visits := start.visitsRun steps
    (visits.count ⟨s, .queued⟩ ≤ 1 ↔ (s.isSequence = true → turns visits s ≤ 1)) ∧
      (s.isSequence = false → (start.run steps).flush.page.written.count s =
        visits.count ⟨s, .queued⟩ + visits.count ⟨s, .direct⟩) := by
  intro start visits
  have haccounts : start.page.Accounts _ visits := (holds_run dialect unit []).accounts_run steps
  refine ⟨?_, fun hs => ?_⟩
  · cases hs : s.isSequence with
    | true =>
        -- Every turn of a sequence is a write, since it is never on the page.
        have hskipped := List.count_eq_zero.2 (haccounts.sequences s hs)
        simp [turns, hskipped]
    | false => simp [haccounts.once s hs]
  · have hlines := haccounts.lines s hs
    rwa [show start.page.written = [] from rfl, List.count_nil, Nat.zero_add] at hlines

/-- Two statements that depend on the same sequence: its turn comes twice, so
it is written twice. -/
theorem shared_sequence_queued_twice :
    let shared : Statement :=
      .sequence [.declaration "t" .constant (some (.literal (.int 1))) none]
    let use (name : String) : Step :=
      .append (.expression (.hoisted [shared] (.call (.name name) [])) none)
    ((blank .javascript).visitsRun [use "f", use "g"]).count ⟨shared, .queued⟩ = 2 ∧
      ((blank .javascript).run [use "f", use "g"]).finish =
        "const t = 1;\nf();\nconst t = 1;\ng();\n" := by
  decide +kernel

end Draft

end TargetCode
