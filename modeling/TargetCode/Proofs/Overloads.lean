import TargetCode.Proofs.WellFormedOperands

/-!
Which overloads a table of methods holds.

Methods and globals are handed to a table in any order, and some methods are
refused. What the table answers is told here by what it took: a method is found
under its owner, name and number of arguments if it was taken, and it is taken
if no other had been taken there before. A place is opened for the method before
that is known, but one that is refused had its place already, so nothing is left
behind. The list of argument counts is made anew from the place each time, and
agrees with that; globals live apart from methods, and the latest slot counts.
-/

namespace TargetCode

namespace MethodTable

section

variable (table : MethodTable)

theorem register_ok_iff (m : Method) :
    (table.register m).result = .ok () ↔ table.find? m.owner m.name m.arity = none := by
  cases hfound : table.find? m.owner m.name m.arity with
  | none => simp [register_of_find?_none hfound]
  | some first => simp [register_of_find?_some hfound]

theorem register_error_iff (m : Method) (e : Error) :
    (table.register m).result = .error e ↔
      (∃ first, table.find? m.owner m.name m.arity = some first) ∧
        e = .duplicateMethod m.owner m.name m.arity := by
  cases hfound : table.find? m.owner m.name m.arity with
  | none => simp [register_of_find?_none hfound]
  | some first => simp [register_of_find?_some hfound, eq_comm]

theorem get_eq_ok_iff (owner name : String) (arity : Nat) (m : Method) :
    table.get owner name arity = .ok m ↔ table.find? owner name arity = some m := by
  unfold get
  cases table.find? owner name arity <;> simp

theorem get_eq_error_iff (owner name : String) (arity : Nat) (e : Error) :
    table.get owner name arity = .error e ↔
      table.find? owner name arity = none ∧ e = .noOverload owner name arity := by
  unfold get
  cases table.find? owner name arity <;> simp [eq_comm]

/-- The counts that are listed are those under which something is found. -/
theorem mem_arities_iff (owner name : String) (n : Nat) :
    n ∈ table.arities owner name ↔ ∃ m, table.find? owner name n = some m := by
  rw [← Option.isSome_iff_exists, arities, List.mem_mergeSort, find?]
  cases table.place? owner name with
  | none => simp
  | some place => simp [List.lookup_isSome_iff]

/-- No place has two overloads with the same number of arguments. -/
def Distinct : Prop :=
  ∀ owner name, (((table.place? owner name).getD []).map Prod.fst).Nodup

end

theorem Distinct.add {table : MethodTable} (h : table.Distinct) (entry : Entry) :
    (table.add entry).Distinct := by
  cases entry with
  | global name slot => exact h
  | method m =>
      rw [MethodTable.add]
      cases hfound : table.find? m.owner m.name m.arity with
      | some first => rwa [register_of_find?_some hfound]
      | none =>
          have hfree : m.arity ∉ ((table.place? m.owner m.name).getD []).map Prod.fst := by
            intro hmem
            obtain ⟨first, hfirst⟩ := (table.mem_arities_iff ..).1 (List.mem_mergeSort.2 hmem)
            rw [hfound] at hfirst
            contradiction
          intro owner name
          rw [(register_of_find?_none hfound).2.2]
          split
          · exact List.nodup_cons.2 ⟨hfree, h m.owner m.name⟩
          · exact h owner name

theorem distinct_assembled (history : List Entry) : (assembled history).Distinct := by
  induction history using List.reverseRecOn with
  | nil => exact fun _ _ => List.nodup_nil
  | append_singleton history entry ih =>
      rw [assembled_concat]
      exact ih.add entry

theorem Distinct.arities_ascending {table : MethodTable} (h : table.Distinct)
    (owner name : String) : (table.arities owner name).Pairwise (· < ·) := by
  have hsorted : (table.arities owner name).Pairwise fun a b => decide (a ≤ b) = true :=
    List.pairwise_mergeSort (by simpa using fun _ _ _ => Nat.le_trans)
      (by simpa using Nat.le_total) _
  have hdistinct : (table.arities owner name).Nodup :=
    (List.mergeSort_perm _ _).nodup_iff.2 (h owner name)
  exact (hsorted.and hdistinct).imp fun ⟨hle, hne⟩ =>
    Nat.lt_of_le_of_ne (of_decide_eq_true hle) hne

/-! ### Histories -/

/-- The method was handed to the table right after `earlier`, and was taken. -/
def Taken (history earlier : List Entry) (m : Method) : Prop :=
  (∃ later, history = earlier ++ .method m :: later) ∧
    ((assembled earlier).register m).result = .ok ()

/-- A method comes first under its key exactly if it was taken. -/
theorem firstMethod?_eq_some_iff {history : List Entry} {owner name : String} {arity : Nat}
    {m : Method} :
    firstMethod? history owner name arity = some m ↔
      m.IsKnownBy owner name arity ∧ ∃ earlier, Taken history earlier m := by
  simp only [Taken, register_ok_iff, find?_assembled]
  constructor
  · intro h
    obtain ⟨earlier, entry, later, hsplit, hentry, hnone⟩ := List.findSome?_eq_some_iff.1 h
    obtain ⟨rfl, rfl, rfl, rfl⟩ := Entry.method?_eq_some_iff.1 hentry
    exact ⟨⟨rfl, rfl, rfl⟩, earlier, ⟨later, hsplit⟩, List.findSome?_eq_none_iff.2 hnone⟩
  · rintro ⟨⟨rfl, rfl, rfl⟩, earlier, ⟨later, hsplit⟩, hnone⟩
    refine List.findSome?_eq_some_iff.2 ⟨earlier, .method m, later, hsplit, ?_, ?_⟩
    · exact Entry.method?_eq_some_iff.2 ⟨rfl, rfl, rfl, rfl⟩
    · exact List.findSome?_eq_none_iff.1 hnone

theorem firstMethod?_eq_none_iff {history : List Entry} {owner name : String} {arity : Nat} :
    firstMethod? history owner name arity = none ↔
      ∀ earlier m, Taken history earlier m → ¬m.IsKnownBy owner name arity := by
  rw [Option.eq_none_iff_forall_ne_some]
  simp only [ne_eq, firstMethod?_eq_some_iff]
  constructor
  · intro h earlier m htaken hkey
    exact h m ⟨hkey, earlier, htaken⟩
  · rintro h m ⟨hkey, earlier, htaken⟩
    exact h earlier m htaken hkey

/-- A method cannot be taken a second time after it was taken once. -/
theorem Taken.not_longer {history earlier : List Entry} {m : Method} (h : Taken history earlier m)
    (more : List Entry) : ¬Taken history (earlier ++ .method m :: more) m := by
  rintro ⟨-, hagain⟩
  rw [register_ok_iff, find?_assembled] at hagain
  have hfirst : Taken (earlier ++ .method m :: more) earlier m := ⟨⟨more, rfl⟩, h.2⟩
  rw [firstMethod?_eq_some_iff.2 ⟨⟨rfl, rfl, rfl⟩, earlier, hfirst⟩] at hagain
  contradiction

theorem Taken.unique {history earlier earlier' : List Entry} {m : Method}
    (h : Taken history earlier m) (h' : Taken history earlier' m) : earlier = earlier' := by
  obtain ⟨later, hsplit⟩ := id h.1
  obtain ⟨later', hsplit'⟩ := id h'.1
  -- Of two different places one is behind the other.
  rcases List.append_eq_append_iff.1 (hsplit.symm.trans hsplit') with
    ⟨between, rfl, hrest⟩ | ⟨between, rfl, hrest⟩
  · cases between with
    | nil => simp
    | cons entry between =>
        obtain ⟨rfl, -⟩ := List.cons.inj hrest
        exact absurd h' (h.not_longer between)
  · cases between with
    | nil => simp
    | cons entry between =>
        obtain ⟨rfl, -⟩ := List.cons.inj hrest
        exact absurd h (h'.not_longer between)

theorem Entry.slot?_eq_some_iff {entry : Entry} {name : String} {slot : Nat} :
    entry.slot? name = some slot ↔ entry = .global name slot := by
  cases entry with
  | method m => simp [slot?]
  | global name' slot' => simp [slot?]

theorem Entry.slot?_eq_none_iff {entry : Entry} {name : String} :
    entry.slot? name = none ↔ ∀ slot, entry ≠ .global name slot := by
  rw [Option.eq_none_iff_forall_ne_some]
  simp only [ne_eq, slot?_eq_some_iff]

theorem latestSlot?_eq_some_iff {history : List Entry} {name : String} {slot : Nat} :
    latestSlot? history name = some slot ↔
      ∃ earlier later, history = earlier ++ .global name slot :: later ∧
        ∀ slot', .global name slot' ∉ later := by
  rw [latestSlot?, List.findSome?_eq_some_iff]
  simp only [Entry.slot?_eq_some_iff, Entry.slot?_eq_none_iff]
  constructor
  · rintro ⟨later, _, earlier, hsplit, rfl, hlater⟩
    refine ⟨earlier.reverse, later.reverse, ?_, ?_⟩
    · simpa using congrArg List.reverse hsplit
    · intro slot' hmem
      exact hlater _ (List.mem_reverse.1 hmem) slot' rfl
  · rintro ⟨earlier, later, rfl, hlater⟩
    refine ⟨later.reverse, _, earlier.reverse, by simp, rfl, ?_⟩
    rintro entry hmem slot' rfl
    exact hlater slot' (List.mem_reverse.1 hmem)

theorem latestSlot?_eq_none_iff {history : List Entry} {name : String} :
    latestSlot? history name = none ↔ ∀ slot, .global name slot ∉ history := by
  rw [latestSlot?, List.findSome?_eq_none_iff]
  simp only [List.mem_reverse, Entry.slot?_eq_none_iff]
  exact ⟨fun h slot hmem => h _ hmem slot rfl, fun h entry hmem slot heq => h slot (heq ▸ hmem)⟩

/-- A table after any methods and globals were handed to it. A method is refused
if one with the same owner, name and arity was taken before, of whatever kind and
number, and then nothing changes. What is found there is the one that was taken,
and the listed arities, in ascending order, are those at which something is
found. A global has its latest slot, which methods do not touch. -/
theorem first_overload_is_kept (history : List Entry) :
    let table := assembled history
    (∀ m : Method,
      ((∃ e, (table.register m).result = .error e) ↔
        ∃ earlier first, Taken history earlier first ∧
          first.IsKnownBy m.owner m.name m.arity) ∧
      ∀ e, (table.register m).result = .error e →
        e = .duplicateMethod m.owner m.name m.arity ∧ (table.register m).table = table) ∧
    (∀ owner name arity,
      (∀ m, table.get owner name arity = .ok m ↔
        m.IsKnownBy owner name arity ∧ ∃! earlier, Taken history earlier m) ∧
      (table.get owner name arity = .error (.noOverload owner name arity) ↔
        ∀ earlier m, Taken history earlier m → ¬m.IsKnownBy owner name arity)) ∧
    (∀ owner name,
      (table.arities owner name).Pairwise (· < ·) ∧
      ∀ n, n ∈ table.arities owner name ↔ ∃ m, table.get owner name n = .ok m) ∧
    ∀ name,
      (∀ slot, table.slot? name = some slot ↔
        ∃ earlier later, history = earlier ++ .global name slot :: later ∧
          ∀ slot', .global name slot' ∉ later) ∧
      (table.slot? name = none ↔ ∀ slot, .global name slot ∉ history) ∧
      ∀ m, (table.register m).table.slot? name = table.slot? name := by
  intro table
  have hfind : ∀ owner name arity,
      table.find? owner name arity = firstMethod? history owner name arity :=
    find?_assembled history
  refine ⟨fun m => ⟨?_, ?_⟩, fun owner name arity => ⟨fun m => ?_, ?_⟩, fun owner name => ⟨?_, ?_⟩,
    fun name => ⟨fun slot => ?_, ?_, fun m => ?_⟩⟩
  · simp only [register_error_iff, hfind, firstMethod?_eq_some_iff, exists_and_left,
      exists_eq, and_true]
    constructor
    · rintro ⟨first, hkey, earlier, htaken⟩
      exact ⟨earlier, first, htaken, hkey⟩
    · rintro ⟨earlier, first, htaken, hkey⟩
      exact ⟨first, hkey, earlier, htaken⟩
  · intro e he
    obtain ⟨⟨first, hfound⟩, rfl⟩ := (register_error_iff table m e).1 he
    exact ⟨rfl, by rw [register_of_find?_some hfound]⟩
  · rw [get_eq_ok_iff, hfind, firstMethod?_eq_some_iff]
    refine and_congr_right fun _ => ⟨?_, ExistsUnique.exists⟩
    rintro ⟨earlier, htaken⟩
    exact ⟨earlier, htaken, fun _ htaken' => htaken'.unique htaken⟩
  · rw [get_eq_error_iff, hfind, firstMethod?_eq_none_iff]
    exact and_iff_left rfl
  · exact (distinct_assembled history).arities_ascending owner name
  · intro n
    simp only [mem_arities_iff, get_eq_ok_iff]
  · rw [slot?_assembled, latestSlot?_eq_some_iff]
  · rw [slot?_assembled, latestSlot?_eq_none_iff]
  · exact (slot?_add table (.method m) name).trans Option.none_or

end MethodTable

end TargetCode
