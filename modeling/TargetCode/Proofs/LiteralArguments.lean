import Mathlib.Data.List.Forall2
import TargetCode.AllowList
import TargetCode.Proofs.Literals

/-!
Arguments that have to be literals, and the names they resolve to.

A literal is recognised by its bytes. Its quotes are single bytes, so that a cut
after the first byte and before the last one never falls inside a character and
leaves the body. A list of arguments resolves to the bodies if each of them is
an allowed name; otherwise the first argument with a fault decides how the call
fails.
-/

namespace TargetCode

namespace Text

/-- A text that is one literal with this body. -/
def Quotes (text body : String) : Prop :=
  ∃ q, IsQuote q ∧ LiteralBody q body.toList ∧ text.toList = q :: (body.toList ++ [q])

theorem isLiteral_iff_exists_quotes (text : String) :
    isLiteral text = true ↔ ∃ body, Quotes text body := by
  rw [isLiteral_iff]
  constructor
  · rintro ⟨q, body, hq, hbody, htext⟩
    exact ⟨String.ofList body, q, hq, by rwa [String.toList_ofList],
      by rwa [String.toList_ofList]⟩
  · rintro ⟨body, q, hq, hbody, htext⟩
    exact ⟨q, body.toList, hq, hbody, htext⟩

theorem Quotes.ofList_tail_dropLast {text body : String} (h : Quotes text body) :
    String.ofList text.toList.tail.dropLast = body := by
  obtain ⟨q, -, -, htext⟩ := h
  rw [htext, List.tail_cons, List.dropLast_concat, String.ofList_toList]

theorem body?_eq_some_iff (text body : String) :
    body? text = some body ↔ Quotes text body ∧ body ≠ "" := by
  have hbody : body? text = some body ↔ isLiteral text = true ∧
      text.toList.tail.dropLast ≠ [] ∧ String.ofList text.toList.tail.dropLast = body := by
    simp [body?, and_assoc]
  rw [hbody, isLiteral_iff_exists_quotes]
  constructor
  · rintro ⟨⟨inner, hinner⟩, hne, rfl⟩
    rw [hinner.ofList_tail_dropLast]
    refine ⟨hinner, ?_⟩
    rintro rfl
    have hnil := congrArg String.toList hinner.ofList_tail_dropLast
    rw [String.toList_ofList] at hnil
    exact hne hnil
  · rintro ⟨hquotes, hne⟩
    refine ⟨⟨body, hquotes⟩, fun hnil => ?_, hquotes.ofList_tail_dropLast⟩
    rw [← hquotes.ofList_tail_dropLast, hnil] at hne
    exact hne rfl

/-- The bytes that are scanned are those of the encoding that texts are kept
in. -/
theorem utf8_eq (s : String) : utf8 s = s.toByteArray.data.toList := by
  rw [← String.utf8Encode_toList, List.utf8Encode, List.data_toByteArray]
  rfl

theorem splitAtByte?_append (cs rest : List Char) :
    splitAtByte? (cs ++ rest) (cs.flatMap String.utf8EncodeChar).length = some (cs, rest) := by
  induction cs with
  | nil => simp [splitAtByte?]
  | cons c cs ih =>
      rw [List.flatMap_cons, List.length_append, String.length_utf8EncodeChar, List.cons_append]
      obtain ⟨n, hn⟩ : ∃ n, c.utf8Size + (cs.flatMap String.utf8EncodeChar).length = n + 1 :=
        Nat.exists_eq_add_one.2 (Nat.add_pos_left c.utf8Size_pos _)
      have hrest : n + 1 - c.utf8Size = (cs.flatMap String.utf8EncodeChar).length := by omega
      rw [hn, splitAtByte?, if_pos (by omega), hrest, ih]
      rfl

/-- The offsets of the body of a literal are boundaries between characters. -/
theorem Quotes.slice?_eq {text body : String} (h : Quotes text body) :
    slice? text 1 (byteLength text - 1) = some body := by
  obtain ⟨q, hq, -, htext⟩ := h
  have hquote : ([q].flatMap String.utf8EncodeChar).length = 1 := by
    rw [List.flatMap_singleton, utf8EncodeChar_ascii hq.lt, List.length_singleton]
  have hlength : byteLength text = (body.toList.flatMap String.utf8EncodeChar).length + 2 := by
    rw [byteLength, utf8, htext, ← List.singleton_append, List.flatMap_append, List.flatMap_append,
      List.length_append, List.length_append, hquote]
    omega
  have hfirst := splitAtByte?_append [q] (body.toList ++ [q])
  rw [hquote, List.singleton_append, ← htext] at hfirst
  have hbody := splitAtByte?_append body.toList [q]
  have hstop : byteLength text - 1 - 1 = (body.toList.flatMap String.utf8EncodeChar).length := by
    omega
  rw [slice?, if_pos (by omega), hfirst, hstop]
  simp only [Option.bind_some, hbody, Option.map_some, String.ofList_toList]

end Text

open Text

theorem unquote_eq_ok_iff (text body : String) :
    unquote text = .ok body ↔ Quotes text body ∧ body ≠ "" := by
  rw [← body?_eq_some_iff, unquote]
  cases body? text <;> simp

theorem unquote_eq_error_iff (text : String) (e : Error) :
    unquote text = .error e ↔
      e = .malformedLiteral text ∧ ¬∃ body, Quotes text body ∧ body ≠ "" := by
  simp only [← body?_eq_some_iff]
  rw [unquote]
  cases body? text <;> simp [eq_comm]

namespace AllowList

/-! ### Allowed names -/

variable {allowed : AllowList}

/-- An argument that names an entry. -/
def Resolves (allowed : AllowList) (text name : String) : Prop :=
  unquote text = .ok name ∧ name ∈ allowed.entries

theorem pick_eq_ok_iff (text name : String) :
    allowed.pick text = .ok name ↔ allowed.Resolves text name := by
  rw [pick, Resolves]
  cases unquote text with
  | error e => simp
  | ok body =>
      by_cases hbody : body ∈ allowed.entries
      · simp only [contains, List.contains_iff_mem.2 hbody, if_true, Except.ok.injEq]
        exact iff_self_and.2 fun h => h ▸ hbody
      · simp only [contains, List.contains_iff_mem, hbody, if_false, reduceCtorEq, false_iff,
          Except.ok.injEq]
        rintro ⟨rfl, hmem⟩
        exact hbody hmem

theorem pick_eq_error_iff (text : String) (e : Error) :
    allowed.pick text = .error e ↔ unquote text = .error e ∨
      ∃ name, unquote text = .ok name ∧ name ∉ allowed.entries ∧ e = .notAllowed name := by
  rw [pick]
  cases unquote text with
  | error e => simp
  | ok body =>
      by_cases hbody : body ∈ allowed.entries <;> simp [contains, hbody, eq_comm]

theorem pickAll_cons (text : String) (texts : List String) :
    allowed.pickAll (text :: texts) =
      (allowed.pick text).bind fun name => (allowed.pickAll texts).map (name :: ·) := by
  rw [pickAll, List.mapM_cons]
  rfl

theorem pickAll_eq_ok_iff (texts names : List String) :
    allowed.pickAll texts = .ok names ↔ List.Forall₂ allowed.Resolves texts names := by
  induction texts generalizing names with
  | nil =>
      rw [List.forall₂_nil_left_iff]
      simp [pickAll, pure, Except.pure, eq_comm]
  | cons text texts ih =>
      rw [pickAll_cons, List.forall₂_cons_left_iff]
      simp only [← pick_eq_ok_iff, ← ih]
      cases allowed.pick text with
      | error e => simp [Except.bind]
      | ok name =>
          cases allowed.pickAll texts <;> simp [Except.bind, Except.map, eq_comm]

/-- One argument decides how resolving fails: those before it name entries, and
it does not. -/
theorem pickAll_eq_error_iff (texts : List String) (e : Error) :
    allowed.pickAll texts = .error e ↔ ∃ before text after, texts = before ++ text :: after ∧
      (∀ other ∈ before, ∃ name, allowed.Resolves other name) ∧ allowed.pick text = .error e := by
  induction texts with
  | nil => simp [pickAll, pure, Except.pure]
  | cons text texts ih =>
      rw [pickAll_cons]
      constructor
      · intro h
        cases hpick : allowed.pick text with
        | error e' =>
            rw [hpick] at h
            obtain rfl : e' = e := Except.error.inj h
            exact ⟨[], text, texts, rfl, by simp, hpick⟩
        | ok name =>
            have htexts : allowed.pickAll texts = .error e := by
              rw [hpick] at h
              cases hall : allowed.pickAll texts <;> simp_all [Except.bind, Except.map]
            obtain ⟨before, fault, after, rfl, hbefore, hfault⟩ := ih.1 htexts
            exact ⟨text :: before, fault, after, rfl,
              List.forall_mem_cons.2 ⟨⟨name, (pick_eq_ok_iff ..).1 hpick⟩, hbefore⟩, hfault⟩
      · rintro ⟨before, fault, after, htexts, hbefore, hfault⟩
        cases before with
        | nil =>
            obtain ⟨rfl, rfl⟩ := List.cons.inj htexts
            rw [hfault]
            rfl
        | cons first before =>
            obtain ⟨rfl, hrest⟩ := List.cons.inj htexts
            obtain ⟨⟨name, hname⟩, hbefore⟩ := List.forall_mem_cons.1 hbefore
            rw [(pick_eq_ok_iff ..).2 hname, ih.2 ⟨before, fault, after, hrest, hbefore, hfault⟩]
            rfl

/-- A text is taken for a literal, by a scan of its bytes, exactly if it is a
body between two quotes, and the offsets after the first byte and before the last
one cut the body out. An argument stands for the body unless this is empty; any
other argument is malformed. Arguments resolve to their bodies if these are all
allowed, and else the first one with a fault is reported. -/
theorem literal_arguments_resolve_exactly :
    (∀ text : String, isLiteral text = isLiteralBytes text.toByteArray.data.toList ∧
      (isLiteral text = true ↔ ∃ body, Quotes text body)) ∧
    (∀ text body : String, Quotes text body →
      slice? text 1 (byteLength text - 1) = some body) ∧
    (∀ text : String,
      (∀ body, unquote text = .ok body ↔ Quotes text body ∧ body ≠ "") ∧
      ∀ e, unquote text = .error e ↔
        e = .malformedLiteral text ∧ ¬∃ body, Quotes text body ∧ body ≠ "") ∧
    ∀ (allowed : AllowList) (texts : List String),
      (∀ names, allowed.pickAll texts = .ok names ↔
        List.Forall₂ (fun text name => unquote text = .ok name ∧ name ∈ allowed.entries)
          texts names) ∧
      ∀ e, allowed.pickAll texts = .error e ↔
        ∃ before text after, texts = before ++ text :: after ∧
          (∀ other ∈ before, ∃ name, unquote other = .ok name ∧ name ∈ allowed.entries) ∧
          (unquote text = .error e ∨
            ∃ name, unquote text = .ok name ∧ name ∉ allowed.entries ∧ e = .notAllowed name) := by
  refine ⟨fun text => ⟨?_, isLiteral_iff_exists_quotes text⟩, fun _ _ => Quotes.slice?_eq,
    fun text => ⟨unquote_eq_ok_iff text, unquote_eq_error_iff text⟩,
    fun allowed texts => ⟨pickAll_eq_ok_iff texts, fun e => ?_⟩⟩
  · rw [isLiteral, utf8_eq]
  · simp only [pickAll_eq_error_iff, pick_eq_error_iff]
    rfl

end AllowList

end TargetCode
