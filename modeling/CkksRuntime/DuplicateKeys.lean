/-
  ckks-runtime formalization — duplicate keys (`json_utils::parse`).

  * `Document` is a document as it is written, and `Document.events` are the events
    that the parser hands to the callback on it, in document order;
  * `events_spec`: the callback comes back to the stack of key sets it started
    with, or stops at the first duplicate key;
  * `parse_duplicateKeys`: `parse` throws exactly on the documents with an object,
    at any depth, that has two members with equal keys.
-/
import CkksRuntime.Json

namespace CkksRuntime

/-- A document as it is written: the members of an object in their order, each
    time they are given. -/
inductive Document where
  | scalar
  | array (items : List Document)
  | object (members : List (String × Document))

namespace Document

/-- **Induction on a document.** -/
theorem induct {P : Document → Prop} (scalar : P .scalar)
    (array : ∀ items, (∀ item ∈ items, P item) → P (.array items))
    (object : ∀ members, (∀ member ∈ members, P member.2) → P (.object members)) (doc : Document) :
    P doc :=
  @Document.rec P (fun items => ∀ item ∈ items, P item)
    (fun members => ∀ member ∈ members, P member.2) (fun member => P member.2) scalar array object
    (by simp) (fun _ _ hhead htail => List.forall_mem_cons.2 ⟨hhead, htail⟩) (by simp)
    (fun _ _ hhead htail => List.forall_mem_cons.2 ⟨hhead, htail⟩) (fun _ _ h => h) doc

mutual

/-- The events of a document. -/
def events : Document → List ParseEvent
  | scalar => [.other]
  | array items => .other :: itemEvents items ++ [.other]
  | object members => .objectStart :: memberEvents members ++ [.objectEnd]

def itemEvents : List Document → List ParseEvent
  | [] => []
  | item :: items => events item ++ itemEvents items

def memberEvents : List (String × Document) → List ParseEvent
  | [] => []
  | (key, value) :: members => .key key :: events value ++ memberEvents members

end

/-- A document inside another, inside objects and arrays. -/
inductive Inside : Document → Document → Prop
  | refl {doc} : Inside doc doc
  | item {doc item items} : item ∈ items → Inside doc item → Inside doc (.array items)
  | member {doc members} {member : String × Document} :
    member ∈ members → Inside doc member.2 → Inside doc (.object members)

/-- Some object of the document, at any depth, has two members with equal keys. -/
def HasDuplicate (doc : Document) : Prop :=
  ∃ members, Inside (.object members) doc ∧ ¬ (members.map Prod.fst).Nodup

theorem hasDuplicate_scalar : ¬ HasDuplicate .scalar := by
  rintro ⟨members, hinside, -⟩
  cases hinside

theorem hasDuplicate_array {items : List Document} :
    HasDuplicate (.array items) ↔ ∃ item ∈ items, item.HasDuplicate := by
  constructor
  · rintro ⟨members, hinside, hdup⟩
    cases hinside with
    | item hmem hinside => exact ⟨_, hmem, members, hinside, hdup⟩
  · rintro ⟨item, hmem, members, hinside, hdup⟩
    exact ⟨members, .item hmem hinside, hdup⟩

theorem hasDuplicate_object {members : List (String × Document)} :
    HasDuplicate (.object members) ↔
      ¬ (members.map Prod.fst).Nodup ∨ ∃ member ∈ members, member.2.HasDuplicate := by
  constructor
  · rintro ⟨inner, hinside, hdup⟩
    cases hinside with
    | refl => exact Or.inl hdup
    | member hmem hinside => exact Or.inr ⟨_, hmem, inner, hinside, hdup⟩
  · rintro (hdup | ⟨member, hmem, inner, hinside, hdup⟩)
    · exact ⟨members, .refl, hdup⟩
    · exact ⟨inner, .member hmem hinside, hdup⟩

end Document

namespace JsonUtils

open Document

variable {document : String}

/-- The callback on a sequence of events. -/
abbrev callbacks (document : String) (events : List ParseEvent) (stack : List (List String)) :
    Except Fault (List (List String)) := events.foldlM (callback document) stack

/-- The error of a duplicate key. -/
def duplicate (document key : String) : Except Fault (List (List String)) :=
  fail document "$" ("duplicate object key '" ++ key ++ "'")

theorem callbacks_append_ok {before after : List ParseEvent} {stack stack' : List (List String)}
    (h : callbacks document before stack = .ok stack') :
    callbacks document (before ++ after) stack = callbacks document after stack' := by
  rw [callbacks, List.foldlM_append]
  exact congrArg (· >>= _) h

theorem callbacks_cons_ok {event : ParseEvent} {events : List ParseEvent}
    {stack stack' : List (List String)} (h : callback document stack event = .ok stack') :
    callbacks document (event :: events) stack = callbacks document events stack' := by
  rw [callbacks, List.foldlM_cons, h]
  rfl

theorem callbacks_append_error {before after : List ParseEvent} {stack : List (List String)}
    {fault : Fault} (h : callbacks document before stack = .error fault) :
    callbacks document (before ++ after) stack = .error fault := by
  rw [callbacks, List.foldlM_append]
  exact congrArg (· >>= _) h

/-- What the callback does on the events of `doc`. -/
structure Spec (document : String) (doc : Document) : Prop where
  keeps : ¬ doc.HasDuplicate → ∀ stack, callbacks document doc.events stack = .ok stack
  stops : doc.HasDuplicate → ∀ stack, ∃ key,
    callbacks document doc.events stack = duplicate document key

theorem itemEvents_spec {items : List Document} (h : ∀ item ∈ items, Spec document item)
    (stack : List (List String)) :
    ((¬ ∃ item ∈ items, item.HasDuplicate) →
      callbacks document (itemEvents items) stack = .ok stack) ∧
    ((∃ item ∈ items, item.HasDuplicate) →
      ∃ key, callbacks document (itemEvents items) stack = duplicate document key) := by
  induction items with
  | nil => exact ⟨fun _ => rfl, by simp⟩
  | cons item items ih =>
    obtain ⟨hitem, hitems⟩ := List.forall_mem_cons.1 h
    obtain ⟨ihkeeps, ihstops⟩ := ih hitems
    rw [List.exists_mem_cons_iff, itemEvents]
    by_cases hdup : item.HasDuplicate
    · obtain ⟨key, hkey⟩ := hitem.stops hdup stack
      exact ⟨fun hno => absurd (Or.inl hdup) hno, fun _ => ⟨key, callbacks_append_error hkey⟩⟩
    · rw [callbacks_append_ok (hitem.keeps hdup stack)]
      exact ⟨fun hno => ihkeeps fun hlater => hno (Or.inr hlater),
        fun hsome => ihstops (hsome.resolve_left hdup)⟩

/-- No value has a duplicate, and the keys differ from each other and from the
    keys already read. -/
structure Distinct (members : List (String × Document)) (keys : List String) : Prop where
  values : ∀ member ∈ members, ¬ member.2.HasDuplicate
  nodup : (members.map Prod.fst).Nodup
  fresh : ∀ member ∈ members, member.1 ∉ keys

theorem distinct_cons {key : String} {value : Document} {members : List (String × Document)}
    {keys : List String} : Distinct ((key, value) :: members) keys ↔
      key ∉ keys ∧ ¬ value.HasDuplicate ∧ Distinct members (key :: keys) := by
  constructor
  · rintro ⟨hvalues, hnodup, hfresh⟩
    obtain ⟨hvalue, hvalues⟩ := List.forall_mem_cons.1 hvalues
    obtain ⟨hkey, hfresh⟩ := List.forall_mem_cons.1 hfresh
    obtain ⟨hnotin, hnodup⟩ := List.nodup_cons.1 hnodup
    refine ⟨hkey, hvalue, hvalues, hnodup, fun member hmem hin => ?_⟩
    rcases List.mem_cons.1 hin with heq | hin
    · exact hnotin (List.mem_map.2 ⟨member, hmem, heq⟩)
    · exact hfresh member hmem hin
  · rintro ⟨hkey, hvalue, hvalues, hnodup, hfresh⟩
    refine ⟨List.forall_mem_cons.2 ⟨hvalue, hvalues⟩, List.nodup_cons.2 ⟨?_, hnodup⟩,
      List.forall_mem_cons.2 ⟨hkey, fun member hmem hin => hfresh member hmem (by simp [hin])⟩⟩
    intro hin
    obtain ⟨member, hmem, heq⟩ := List.mem_map.1 hin
    exact hfresh member hmem (by simp [heq])

/-- The keys of the members are added to the innermost set, and to no other. -/
theorem memberEvents_spec {members : List (String × Document)}
    (h : ∀ member ∈ members, Spec document member.2) (keys : List String)
    (outer : List (List String)) :
    (Distinct members keys → callbacks document (memberEvents members) (keys :: outer) =
      .ok (((members.map Prod.fst).reverse ++ keys) :: outer)) ∧
    (¬ Distinct members keys →
      ∃ key, callbacks document (memberEvents members) (keys :: outer) = duplicate document key) := by
  induction members generalizing keys with
  | nil => exact ⟨fun _ => rfl, fun hno => absurd ⟨by simp, by simp, by simp⟩ hno⟩
  | cons member members ih =>
    obtain ⟨key, value⟩ := member
    obtain ⟨hvalue, hmembers⟩ := List.forall_mem_cons.1 h
    obtain ⟨ihkeeps, ihstops⟩ := ih hmembers (key :: keys)
    rw [distinct_cons, memberEvents, List.cons_append]
    by_cases hin : key ∈ keys
    · refine ⟨fun hno => absurd hin hno.1, fun _ => ⟨key, ?_⟩⟩
      have hstep : callback document (keys :: outer) (.key key) = duplicate document key := by
        simp [callback, hin, duplicate]
      rw [callbacks, List.foldlM_cons, hstep]
      rfl
    · have hstep : callback document (keys :: outer) (.key key) = .ok ((key :: keys) :: outer) := by
        simp [callback, hin]
      rw [callbacks_cons_ok hstep]
      by_cases hdup : value.HasDuplicate
      · obtain ⟨key', hkey'⟩ := hvalue.stops hdup ((key :: keys) :: outer)
        exact ⟨fun hno => absurd hdup hno.2.1, fun _ => ⟨key', callbacks_append_error hkey'⟩⟩
      · rw [callbacks_append_ok (hvalue.keeps hdup _)]
        refine ⟨fun hd => ?_, fun hno => ihstops fun hd => hno ⟨hin, hdup, hd⟩⟩
        rw [ihkeeps hd.2.2]
        simp

/-- **The callback and the document.** -/
theorem events_spec (document : String) (doc : Document) : Spec document doc := by
  induction doc using Document.induct with
  | scalar => exact ⟨fun _ _ => rfl, fun hdup => absurd hdup hasDuplicate_scalar⟩
  | array items ih =>
    have hother (stack : List (List String)) : callback document stack .other = .ok stack := rfl
    refine ⟨fun hno stack => ?_, fun hdup stack => ?_⟩
    · rw [hasDuplicate_array] at hno
      rw [events, List.cons_append, callbacks_cons_ok (hother stack),
        callbacks_append_ok ((itemEvents_spec ih stack).1 hno)]
      rfl
    · obtain ⟨key, hkey⟩ := (itemEvents_spec ih stack).2 (hasDuplicate_array.1 hdup)
      refine ⟨key, ?_⟩
      rw [events, List.cons_append, callbacks_cons_ok (hother stack)]
      exact callbacks_append_error hkey
  | object members ih =>
    have hstart (stack : List (List String)) :
        callback document stack .objectStart = .ok ([] :: stack) := rfl
    have hdistinct : Distinct members [] ↔ ¬ HasDuplicate (.object members) := by
      rw [hasDuplicate_object]
      constructor
      · rintro ⟨hvalues, hnodup, -⟩ (hdup | ⟨member, hmem, hdup⟩)
        · exact hdup hnodup
        · exact hvalues member hmem hdup
      · intro hno
        exact ⟨fun member hmem hdup => hno (Or.inr ⟨member, hmem, hdup⟩),
          not_not.1 fun hdup => hno (Or.inl hdup), by simp⟩
    refine ⟨fun hno stack => ?_, fun hdup stack => ?_⟩
    · rw [events, List.cons_append, callbacks_cons_ok (hstart stack),
        callbacks_append_ok ((memberEvents_spec ih [] stack).1 (hdistinct.2 hno))]
      rfl
    · obtain ⟨key, hkey⟩ := (memberEvents_spec ih [] stack).2 fun hd => hdistinct.1 hd hdup
      refine ⟨key, ?_⟩
      rw [events, List.cons_append, callbacks_cons_ok (hstart stack)]
      exact callbacks_append_error hkey

/-- The error of a callback on an event that cannot be. -/
def invalidState (document : String) : Except Fault (List (List String)) :=
  fail document "$" "invalid parser object state"

theorem duplicate_ne_invalidState (key : String) :
    duplicate document key ≠ invalidState document := by
  intro h
  have hwhat := Fault.runtimeError.inj (Except.error.inj h)
  have hlist := congrArg String.toList hwhat
  simp at hlist

theorem callbacks_ne_invalidState (document : String) (doc : Document)
    (stack : List (List String)) :
    callbacks document doc.events stack ≠ invalidState document := by
  have hspec := events_spec document doc
  by_cases hdup : doc.HasDuplicate
  · obtain ⟨key, hkey⟩ := hspec.stops hdup stack
    rw [hkey]
    exact duplicate_ne_invalidState key
  · rw [hspec.keeps hdup stack]
    rintro ⟨⟩

/-- The events of a value leave every open object as it was. -/
theorem callbacks_keeps {doc : Document} {stack stack' : List (List String)}
    (h : callbacks document doc.events stack = .ok stack') : stack' = stack := by
  have hspec := events_spec document doc
  by_cases hdup : doc.HasDuplicate
  · obtain ⟨key, hkey⟩ := hspec.stops hdup stack
    rw [hkey] at h
    exact absurd h (by simp [duplicate])
  · rw [hspec.keeps hdup stack] at h
    exact (Except.ok.inj h).symm

/-- The innermost set has the keys of the members read so far, and no others. -/
theorem callbacks_members {members : List (String × Document)} {stack stack' : List (List String)}
    (h : callbacks document (.objectStart :: memberEvents members) stack = .ok stack') :
    stack' = (members.map Prod.fst).reverse :: stack := by
  have hvalues : ∀ member ∈ members, Spec document member.2 :=
    fun member _ => events_spec document member.2
  have hspec := memberEvents_spec hvalues [] stack
  have hstart : callback document stack .objectStart = .ok ([] :: stack) := rfl
  rw [callbacks_cons_ok hstart] at h
  by_cases hd : Distinct members []
  · rw [hspec.1 hd, List.append_nil] at h
    exact (Except.ok.inj h).symm
  · obtain ⟨key, hkey⟩ := hspec.2 hd
    rw [hkey] at h
    exact absurd h (by simp [duplicate])

/-- **Duplicate keys are rejected at every depth and only then.**  On a text without
    byte-order mark that the parser takes for `doc`, `parse` throws if and only if
    some object of `doc` has two members with equal keys; the callback never finds
    an invalid parser state; a value leaves the key sets of the open objects as
    they were, and an open object has the keys of its own members. -/
theorem parse_duplicateKeys (sax : Sax) (document : String) (text : Bytes) (doc : Document)
    (value : Json) (hbom : text.take 3 ≠ [0xef, 0xbb, 0xbf])
    (hsax : sax text = (doc.events, .ok value)) :
    ((∃ fault, parse sax text document = .error fault) ↔ doc.HasDuplicate) ∧
    (¬ doc.HasDuplicate → parse sax text document = .ok value) ∧
    (∀ before event after stack, doc.events = before ++ event :: after →
      callbacks document before [] = .ok stack →
        callback document stack event ≠ invalidState document) ∧
    (∀ (inner : Document) stack stack',
      callbacks document inner.events stack = .ok stack' → stack' = stack) ∧
    ∀ members stack stack',
      callbacks document (.objectStart :: memberEvents members) stack = .ok stack' →
        stack' = (members.map Prod.fst).reverse :: stack := by
  have hspec := events_spec document doc
  have hparse : parse sax text document =
      (callbacks document doc.events [] >>= fun _ => Except.ok value) := by
    rw [parse, if_neg hbom, hsax]
    rfl
  have hkeeps (hno : ¬ doc.HasDuplicate) : parse sax text document = .ok value := by
    rw [hparse, hspec.keeps hno]
    rfl
  refine ⟨⟨?_, ?_⟩, hkeeps, ?_, fun _ _ _ => callbacks_keeps, fun _ _ _ => callbacks_members⟩
  · rintro ⟨fault, hfault⟩
    by_contra hno
    rw [hkeeps hno] at hfault
    cases hfault
  · intro hdup
    obtain ⟨key, hkey⟩ := hspec.stops hdup []
    rw [hparse, hkey]
    exact ⟨_, rfl⟩
  · intro before event after stack hevents hbefore hinvalid
    have hall := callbacks_ne_invalidState document doc []
    refine hall ?_
    rw [hevents, callbacks_append_ok hbefore, callbacks, List.foldlM_cons, hinvalid]
    rfl

/-- An object that gives `b` twice, in an array in an object. -/
def nestedDocument : Document :=
  .object [("a", .array [.object [("b", .scalar), ("b", .scalar)]])]

/-- The text of `nestedDocument`, with the values 0 and 1. -/
def nestedText : Bytes :=
  [0x7b, 0x22, 0x61, 0x22, 0x3a, 0x5b, 0x7b, 0x22, 0x62, 0x22, 0x3a, 0x30, 0x2c, 0x22, 0x62, 0x22,
    0x3a, 0x31, 0x7d, 0x5d, 0x7d]

/-- A parser of the one text; the last of the values is kept. -/
def nestedSax : Sax := fun text =>
  if text = nestedText then
    (nestedDocument.events, .ok (.object [("a", .array [.object [("b", .unsigned 1)]])]))
  else ([], .error "syntax error")

theorem parse_duplicateKeys_nested :
    ∃ fault, parse nestedSax nestedText "RuntimePlan" = .error fault :=
  (parse_duplicateKeys nestedSax "RuntimePlan" nestedText nestedDocument _ (by decide)
    (if_pos rfl)).1.2
    ⟨[("b", .scalar), ("b", .scalar)], .member (.head _) (.item (.head _) .refl), by decide⟩

end JsonUtils

end CkksRuntime
