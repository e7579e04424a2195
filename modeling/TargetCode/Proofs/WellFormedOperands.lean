import Mathlib.Data.List.Induction
import TargetCode.Builtin.Operations
import TargetCode.Proofs.Dispatch

/-!
What invocations can look like.

The running program looks at nothing but the number of a method, so that an
invocation has to be right when it is made. It is put together from the table
of methods in several ways, each of which checks something else, and from
operands that are themselves the results of invocations. Here an operand is
judged by what was added to the table: in the whole tree each method is the one
that was added first for its owner, name and number of arguments and is called
in the way it is meant to be, and each global has the slot it was given last.
These trees, and no others, can be had from the table.
-/

namespace TargetCode

/-- What a method is found by. -/
def Method.IsKnownBy (m : Method) (owner name : String) (arity : Nat) : Prop :=
  m.owner = owner ∧ m.name = name ∧ m.arity = arity

namespace MethodTable

/-- An addition to a table. -/
inductive Entry where
  | method (m : Method)
  | global (name : String) (slot : Nat)
  deriving DecidableEq, Repr

/-- The table after an attempt to add to it. -/
def add (table : MethodTable) : Entry → MethodTable
  | .method m => (table.register m).table
  | .global name slot => table.setGlobal name slot

def assembled (history : List Entry) : MethodTable :=
  history.foldl add .empty

namespace Entry

def method? (owner name : String) (arity : Nat) : Entry → Option Method
  | .method m => if m.owner = owner ∧ m.name = name ∧ m.arity = arity then some m else none
  | .global _ _ => none

def slot? (name : String) : Entry → Option Nat
  | .method _ => none
  | .global name' slot => if name' = name then some slot else none

theorem method?_eq_some_iff {entry : Entry} {owner name : String} {arity : Nat}
    {m : Method} :
    entry.method? owner name arity = some m ↔
      entry = .method m ∧ m.IsKnownBy owner name arity := by
  cases entry with
  | global name' slot => simp [method?]
  | method m' =>
      simp only [method?, Option.ite_none_right_eq_some, Option.some.injEq, method.injEq]
      constructor
      · rintro ⟨hkey, rfl⟩
        exact ⟨rfl, hkey⟩
      · rintro ⟨rfl, hkey⟩
        exact ⟨hkey, rfl⟩

end Entry

/-- The first method that was added with this owner, name and arity. -/
def firstMethod? (history : List Entry) (owner name : String) (arity : Nat) : Option Method :=
  history.findSome? (Entry.method? owner name arity)

/-- The slot that was given to a global last. -/
def latestSlot? (history : List Entry) (name : String) : Option Nat :=
  history.reverse.findSome? (Entry.slot? name)

theorem assembled_concat (history : List Entry) (entry : Entry) :
    assembled (history ++ [entry]) = (assembled history).add entry :=
  List.foldl_append

theorem firstMethod?_concat (history : List Entry) (entry : Entry) (owner name : String)
    (arity : Nat) :
    firstMethod? (history ++ [entry]) owner name arity =
      (firstMethod? history owner name arity).or (entry.method? owner name arity) := by
  rw [firstMethod?, List.findSome?_append, List.findSome?_singleton]
  rfl

theorem latestSlot?_concat (history : List Entry) (entry : Entry) (name : String) :
    latestSlot? (history ++ [entry]) name = (entry.slot? name).or (latestSlot? history name) := by
  rw [latestSlot?, List.reverse_append, List.findSome?_append, List.reverse_singleton,
    List.findSome?_singleton]
  rfl

@[simp] theorem place?_setPlace (table : MethodTable) (owner name owner' name' : String)
    (place : List (Nat × Method)) :
    (table.setPlace owner name place).place? owner' name' =
      if owner = owner' ∧ name = name' then some place else table.place? owner' name' := by
  rw [place?, setPlace, List.lookup_cons]
  by_cases hkey : owner = owner' ∧ name = name'
  · obtain ⟨rfl, rfl⟩ := hkey
    simp
  · have hne : ((owner', name') == (owner, name)) = false := by
      simp only [beq_eq_false_iff_ne, ne_eq, Prod.mk.injEq]
      exact fun h => hkey ⟨h.1.symm, h.2.symm⟩
    rw [if_neg hkey, hne]
    rfl

section

variable {table : MethodTable} {m : Method}

/-- An overload that is there already has a place, so that none was made for the
one that is refused. -/
theorem register_of_find?_some {first : Method}
    (h : table.find? m.owner m.name m.arity = some first) :
    table.register m = ⟨table, .error (.duplicateMethod m.owner m.name m.arity)⟩ := by
  obtain ⟨place, hplace, hfirst⟩ := Option.bind_eq_some_iff.1 h
  have hopen : table.openPlace m.owner m.name = (table, place) := by rw [openPlace, hplace]
  simp only [register, hopen, hfirst]

/-- An overload that is taken comes into the place of its method, with those that
are there. -/
theorem register_of_find?_none (h : table.find? m.owner m.name m.arity = none) :
    (table.register m).result = .ok () ∧ (table.register m).table.globals = table.globals ∧
      ∀ owner name, (table.register m).table.place? owner name =
        if m.owner = owner ∧ m.name = name then
          some ((m.arity, m) :: (table.place? m.owner m.name).getD [])
        else table.place? owner name := by
  cases hplace : table.place? m.owner m.name with
  | none =>
      have hopen : table.openPlace m.owner m.name = (table.setPlace m.owner m.name [], []) := by
        rw [openPlace, hplace]
      simp only [register, hopen, List.lookup_nil]
      refine ⟨trivial, rfl, fun owner name => ?_⟩
      rw [place?_setPlace, place?_setPlace]
      split <;> rfl
  | some place =>
      have hopen : table.openPlace m.owner m.name = (table, place) := by rw [openPlace, hplace]
      have hfree : place.lookup m.arity = none := by rwa [find?, hplace] at h
      simp only [register, hopen, hfree]
      exact ⟨trivial, rfl, fun owner name => place?_setPlace ..⟩

end

/-- What one addition does to the methods that can be found: only where there
was none is there a new one. -/
theorem find?_add (table : MethodTable) (entry : Entry) (owner name : String) (arity : Nat) :
    (table.add entry).find? owner name arity =
      (table.find? owner name arity).or (entry.method? owner name arity) := by
  cases entry with
  | global name' slot => exact Option.or_none.symm
  | method m =>
      rw [add, Entry.method?]
      cases hfound : table.find? m.owner m.name m.arity with
      | some first =>
          rw [register_of_find?_some hfound]
          split
          · next hkey =>
              obtain ⟨rfl, rfl, rfl⟩ := hkey
              rw [hfound]
              rfl
          · exact Option.or_none.symm
      | none =>
          obtain ⟨-, -, hplace⟩ := register_of_find?_none hfound
          rw [find?, hplace]
          by_cases hmethod : m.owner = owner ∧ m.name = name
          · obtain ⟨rfl, rfl⟩ := hmethod
            rw [if_pos ⟨rfl, rfl⟩, Option.bind_some, List.lookup_cons, find?]
            by_cases harity : m.arity = arity
            · subst harity
              rw [find?] at hfound
              simp [hfound]
            · have hne : (arity == m.arity) = false := by simp [Ne.symm harity]
              cases table.place? m.owner m.name <;> simp [hne, harity]
          · have hkey : ¬(m.owner = owner ∧ m.name = name ∧ m.arity = arity) :=
              fun h => hmethod ⟨h.1, h.2.1⟩
            rw [if_neg hmethod, if_neg hkey, Option.or_none]
            rfl

theorem slot?_add (table : MethodTable) (entry : Entry) (name : String) :
    (table.add entry).slot? name = (entry.slot? name).or (table.slot? name) := by
  cases entry with
  | method m =>
      rw [add, slot?]
      cases hfound : table.find? m.owner m.name m.arity with
      | some first => rw [register_of_find?_some hfound]; rfl
      | none => rw [(register_of_find?_none hfound).2.1]; rfl
  | global name' slot =>
      by_cases hname : name' = name
      · simp [add, setGlobal, slot?, Entry.slot?, hname]
      · have hne : (name == name') = false := by simp [Ne.symm hname]
        simp [add, setGlobal, slot?, Entry.slot?, hname, List.lookup_cons, hne]

theorem find?_assembled (history : List Entry) (owner name : String) (arity : Nat) :
    (assembled history).find? owner name arity = firstMethod? history owner name arity := by
  induction history using List.reverseRecOn with
  | nil => rfl
  | append_singleton history entry ih =>
      rw [assembled_concat, find?_add, firstMethod?_concat, ih]

theorem slot?_assembled (history : List Entry) (name : String) :
    (assembled history).slot? name = latestSlot? history name := by
  induction history using List.reverseRecOn with
  | nil => rfl
  | append_singleton history entry ih =>
      rw [assembled_concat, slot?_add, latestSlot?_concat, ih]

theorem isKnownBy_of_firstMethod? {history : List Entry} {owner name : String} {arity : Nat}
    {m : Method} (h : firstMethod? history owner name arity = some m) :
    m.IsKnownBy owner name arity := by
  obtain ⟨entry, -, hentry⟩ := List.exists_of_findSome?_eq_some h
  exact (Entry.method?_eq_some_iff.1 hentry).2

end MethodTable

/-- An operand that can be used: at its root and wherever a result occurs in
it, the method was added to the table and is called with as many arguments as it
takes, and on a receiver if it is meant to have one; each global has its slot. -/
inductive Operand.WellFormed (history : List MethodTable.Entry) : Operand → Prop where
  | ofVariable (slot : Nat) : WellFormed history (.variable slot)
  | constant (value : Constant) : WellFormed history (.constant value)
  | global {name : String} {slot : Nat} (given : MethodTable.latestSlot? history name = some slot) :
      WellFormed history (.global name slot)
  | result {m : Method} {receiver : Option Operand} {args : List Operand}
      (added : MethodTable.firstMethod? history m.owner m.name m.arity = some m)
      (count : args.length = m.arity)
      (kind : receiver.isSome = true ↔ m.kind = .bound)
      (receiverWellFormed : ∀ o ∈ receiver, WellFormed history o)
      (argsWellFormed : ∀ o ∈ args, WellFormed history o) :
      WellFormed history (.result m receiver args)

namespace MethodTable

/-- The operands that can be had from a table, by calls of its methods and of
the built-in operations, one inside the other. -/
inductive Yields (table : MethodTable) : Operand → Prop where
  | ofVariable (slot : Nat) : Yields table (.variable slot)
  | constant (value : Constant) : Yields table (.constant value)
  | global {name : String} {o : Operand} (found : table.global name = .ok o) : Yields table o
  | static {owner name : String} {args : List Operand} {i : Invocation}
      (hargs : ∀ o ∈ args, Yields table o) (called : table.callStatic owner name args = .ok i) :
      Yields table i.toOperand
  | bound {receiver : Operand} {owner name : String} {args : List Operand} {i : Invocation}
      (hreceiver : Yields table receiver) (hargs : ∀ o ∈ args, Yields table o)
      (called : table.callBound receiver owner name args = .ok i) : Yields table i.toOperand
  | operation {name : String} {args : List Operand} {i : Invocation}
      (hargs : ∀ o ∈ args, Yields table o)
      (called : (Registry.builtin.invocation name args table).value = .ok i) :
      Yields table i.toOperand

section

variable {table : MethodTable} {owner name : String} {args : List Operand} {i : Invocation}

theorem select_eq_ok_iff {arity : Nat} {kind : MethodKind} {m : Method} :
    table.select owner name arity kind = .ok m ↔
      table.find? owner name arity = some m ∧ m.kind = kind := by
  unfold select get
  cases table.find? owner name arity with
  | none => simp
  | some first =>
      by_cases hkind : first.kind = kind
      · simp only [hkind, if_true, Except.ok.injEq, Option.some.injEq]
        exact ⟨fun h => ⟨h, h ▸ hkind⟩, And.left⟩
      · simp only [hkind, if_false, Option.some.injEq, reduceCtorEq, false_iff]
        rintro ⟨rfl, h⟩
        exact hkind h

theorem callStatic_eq_ok_iff :
    table.callStatic owner name args = .ok i ↔
      ∃ m, table.select owner name args.length .static = .ok m ∧ i = ⟨m, none, args⟩ := by
  unfold callStatic
  cases table.select owner name args.length .static <;> simp [eq_comm]

theorem callBound_eq_ok_iff {receiver : Operand} :
    table.callBound receiver owner name args = .ok i ↔
      ∃ m, table.select owner name args.length .bound = .ok m ∧ i = ⟨m, some receiver, args⟩ := by
  unfold callBound
  cases table.select owner name args.length .bound <;> simp [eq_comm]

theorem global_eq_ok_iff {o : Operand} :
    table.global name = .ok o ↔ ∃ slot, table.slot? name = some slot ∧ o = .global name slot := by
  unfold global
  cases table.slot? name <;> simp [eq_comm]

end

end MethodTable

/-! ### Calls of operations -/

namespace Builtin

/-- The operands are arguments or constants. -/
def DrawnFrom (args operands : List Operand) : Prop :=
  ∀ o ∈ operands, o ∈ args ∨ ∃ value, o = .constant value

/-- A form that calls one method, with nothing but its arguments and constants,
whatever the table. -/
def CallsOneMethod (form : InvocationForm) : Prop :=
  ∀ args table i, form args table = .ok i →
    (∃ owner name operands, table.callStatic owner name operands = .ok i ∧
      DrawnFrom args operands) ∨
    ∃ receiver owner name operands, table.callBound receiver owner name operands = .ok i ∧
      DrawnFrom args (receiver :: operands)

theorem drawnFrom_self (args : List Operand) : DrawnFrom args args :=
  fun _ => .inl

theorem callsOneMethod_callStatic (owner name : String) :
    CallsOneMethod fun args table => table.callStatic owner name args :=
  fun args _ _ h => .inl ⟨owner, name, args, h, drawnFrom_self args⟩

theorem callsOneMethod_length : CallsOneMethod lengthInvocation := by
  intro args table i h
  match args with
  | [list] => exact .inr ⟨list, "List", "size", [], h, drawnFrom_self [list]⟩
  | [] => simp [lengthInvocation] at h
  | _ :: _ :: _ => simp [lengthInvocation] at h

theorem callsOneMethod_cleanHtml : CallsOneMethod cleanHtmlInvocation := by
  intro args table i h
  cases args with
  | nil => simp [cleanHtmlInvocation] at h
  | cons value extras =>
      simp only [cleanHtmlInvocation, bind, Except.bind] at h
      cases hrequested : requestedTags ((value :: extras).map Operand.spelling) with
      | error e =>
          rw [hrequested] at h
          contradiction
      | ok tags =>
          rw [hrequested] at h
          cases tags with
          | nil => exact .inl ⟨_, _, _, h, by simp [DrawnFrom]⟩
          | cons tag tags => exact .inl ⟨_, _, _, h, by simp [DrawnFrom]⟩

theorem cases_of_mem {op : Operation} (hop : op ∈ operations) :
    op = cleanHtml ∨ op.name ≠ "cleanHtml" ∧
      (op = flat ∨ op = length ∨ op = max ∨ op = min ∨ op = round ∨ op = strContains ∨
        op = escapeHtml) := by
  simp only [operations, List.mem_cons, List.not_mem_nil, or_false] at hop
  rcases hop with rfl | rfl | rfl | rfl | rfl | rfl | rfl | rfl
  case inr.inr.inr.inr.inr.inr.inr => exact .inl rfl
  all_goals exact .inr ⟨by decide, by simp only [true_or, or_true]⟩

theorem callsOneMethod_of_mem {op : Operation} (hop : op ∈ operations) {form : InvocationForm}
    (hform : op.invocation = some form) : CallsOneMethod form := by
  rcases cases_of_mem hop with rfl | ⟨-, rfl | rfl | rfl | rfl | rfl | rfl | rfl⟩ <;>
    obtain rfl := Option.some.inj hform
  · exact callsOneMethod_cleanHtml
  · exact callsOneMethod_callStatic _ _
  · exact callsOneMethod_length
  all_goals exact callsOneMethod_callStatic _ _

theorem operations_builtin : Registry.builtin.operations = operations :=
  rfl

/-- A call of an operation is a call of one method. -/
theorem callsOneMethod_invocation (name : String) :
    CallsOneMethod fun args table => (Registry.builtin.invocation name args table).value := by
  intro args table i h
  obtain ⟨form, hform, hcall⟩ := (Registry.invocation_eq_ok_iff ..).1 h
  obtain ⟨op, hfind, -, hop, -⟩ := (Registry.formOf_eq_ok_iff ..).1 hform
  have hmem : op ∈ operations := operations_builtin ▸ List.mem_of_find?_eq_some hfind
  exact callsOneMethod_of_mem hmem hop args table i hcall

end Builtin

/-! ### All trees -/

namespace MethodTable

variable {history : List Entry} {receiver : Option Operand} {args : List Operand} {m : Method}

theorem wellFormed_of_select {owner name : String} {kind : MethodKind}
    (hselect : (assembled history).select owner name args.length kind = .ok m)
    (hkind : receiver.isSome = true ↔ kind = .bound)
    (hreceiver : ∀ o ∈ receiver, o.WellFormed history) (hargs : ∀ o ∈ args, o.WellFormed history) :
    Operand.WellFormed history (.result m receiver args) := by
  obtain ⟨hfind, rfl⟩ := select_eq_ok_iff.1 hselect
  rw [find?_assembled] at hfind
  obtain ⟨rfl, rfl, harity⟩ := isKnownBy_of_firstMethod? hfind
  rw [← harity] at hfind
  exact .result hfind harity.symm hkind hreceiver hargs

theorem select_of_firstMethod? (hadded : firstMethod? history m.owner m.name m.arity = some m)
    (hcount : args.length = m.arity) :
    (assembled history).select m.owner m.name args.length m.kind = .ok m := by
  rw [select_eq_ok_iff, hcount, find?_assembled]
  exact ⟨hadded, rfl⟩

/-- One call of a method. -/
theorem wellFormed_of_callStatic {owner name : String} {i : Invocation}
    (h : (assembled history).callStatic owner name args = .ok i)
    (hargs : ∀ o ∈ args, o.WellFormed history) : i.toOperand.WellFormed history := by
  obtain ⟨m, hselect, rfl⟩ := callStatic_eq_ok_iff.1 h
  exact wellFormed_of_select hselect (by simp) (by simp) hargs

theorem wellFormed_of_callBound {owner name : String} {o : Operand} {i : Invocation}
    (h : (assembled history).callBound o owner name args = .ok i)
    (ho : o.WellFormed history) (hargs : ∀ o ∈ args, o.WellFormed history) :
    i.toOperand.WellFormed history := by
  obtain ⟨m, hselect, rfl⟩ := callBound_eq_ok_iff.1 h
  exact wellFormed_of_select hselect (by simp) (by simpa using ho) hargs

theorem Yields.wellFormed {o : Operand} (h : (assembled history).Yields o) :
    o.WellFormed history := by
  induction h with
  | ofVariable slot => exact .ofVariable slot
  | constant value => exact .constant value
  | global found =>
      obtain ⟨slot, hslot, rfl⟩ := global_eq_ok_iff.1 found
      exact .global (slot?_assembled .. ▸ hslot)
  | static _ called ih => exact wellFormed_of_callStatic called ih
  | bound _ _ called ihReceiver ih => exact wellFormed_of_callBound called ihReceiver ih
  | @operation name args i _ called ih =>
      have hdrawn : ∀ {operands}, Builtin.DrawnFrom args operands →
          ∀ o ∈ operands, o.WellFormed history := by
        intro operands hoperands o ho
        rcases hoperands o ho with hmem | ⟨value, rfl⟩
        · exact ih o hmem
        · exact .constant value
      rcases Builtin.callsOneMethod_invocation name _ _ _ called with
        ⟨_, _, _, hcall, hoperands⟩ | ⟨_, _, _, _, hcall, hoperands⟩
      · exact wellFormed_of_callStatic hcall (hdrawn hoperands)
      · obtain ⟨hreceiver, hargs⟩ := List.forall_mem_cons.1 (hdrawn hoperands)
        exact wellFormed_of_callBound hcall hreceiver hargs

theorem yields_of_wellFormed {o : Operand} (h : o.WellFormed history) :
    (assembled history).Yields o := by
  induction h with
  | ofVariable slot => exact .ofVariable slot
  | constant value => exact .constant value
  | global given =>
      rw [← slot?_assembled] at given
      exact .global (global_eq_ok_iff.2 ⟨_, given, rfl⟩)
  | @result m receiver args added count kind _ _ ihReceiver ih =>
      have hselect := select_of_firstMethod? added count
      cases receiver with
      | none =>
          have hkind : m.kind = .static := by
            cases hm : m.kind with
            | static => rfl
            | bound => simpa using kind.2 hm
          rw [hkind] at hselect
          exact .static ih (callStatic_eq_ok_iff.2 ⟨m, hselect, rfl⟩)
      | some o =>
          rw [kind.1 rfl] at hselect
          exact .bound (ihReceiver o rfl) ih (callBound_eq_ok_iff.2 ⟨m, hselect, rfl⟩)

/-- The operands that can be had from a table, after any additions to it. -/
theorem yields_iff_wellFormed (history : List Entry) (o : Operand) :
    (assembled history).Yields o ↔ o.WellFormed history :=
  ⟨Yields.wellFormed, yields_of_wellFormed⟩

end MethodTable

end TargetCode
