import Mathlib.Data.List.DropRight
import TypedClient.Proofs.Client.EmittedCalls
import TypedClient.Proofs.Client.MarkedTypes

namespace TypedClient.Proofs.OptionalParameters

open TypedClient.Module TypedClient.Endpoint TypedClient.Identifier TypedClient.Proofs.BlockComments
open TypedClient.Proofs.Contents TypedClient.Proofs.DraftImports TypedClient.Proofs.EndpointComments
open TypedClient.Proofs.FreshName TypedClient.Proofs.FunctionReader TypedClient.Proofs.FunctionReading
open TypedClient.Proofs.MarkedTypes TypedClient.Proofs.PlainSchemas

/-- What stands outside of all angle brackets, when some are open in front. -/
def outside : Nat → List Char → List Char
  | _, [] => []
  | depth, c :: cs =>
    if c = '<' then outside (depth + 1) cs
    else if c = '>' then outside (depth - 1) cs
    else if depth = 0 then c :: outside depth cs
    else outside depth cs

def AdmitsUndefined (type : String) : Prop :=
  " | undefined".toList <:+: outside 0 type.toList

/-- A name that a parameter has in a function: its own as an identifier, perhaps with a number behind
it. -/
def IsNamed (p : Parameter) (q : Declared) : Prop :=
  q.name = sanitize p.name ∨ ∃ n, q.name = numbered (sanitize p.name) n

/-- A parameter that has a question mark, and no `undefined` in its type besides. -/
structure Omissible (p : Parameter) (q : Declared) : Prop where
  name : IsNamed p q
  marked : q.marked = true
  type : ¬ AdmitsUndefined q.type

structure Positional (p : Parameter) (q : Declared) : Prop where
  name : IsNamed p q
  marked : q.marked = false
  type : AdmitsUndefined q.type ↔ p.optional = true ∨ p.schema.nullable = true

/-- A function for an operation, as its text declares the parameters: first those up to the last that is
not optional, and then those that have a question mark. The comment in front is none of it. -/
def DeclaresFunction (op : Operation) (text : String) : Prop :=
  ∃ function h xs ys, text = docComment (op.description.getD "") ++ function ∧
    Header.read? function = some h ∧
    (¬ Terminates (op.description.getD "") → Header.read? text = some h) ∧
    h.parameters = xs ++ ys ∧
    List.Forall₂ Positional (op.parameters.rdropWhile Parameter.optional) xs ∧
    List.Forall₂ Omissible (op.parameters.rtakeWhile Parameter.optional) ys

section Types

variable {s t u v : String}

def Leaves (s t : String) : Prop :=
  ∀ depth r, outside depth (s.toList ++ r) = (if depth = 0 then t.toList else []) ++ outside depth r

theorem Leaves.append (hs : Leaves s u) (ht : Leaves t v) : Leaves (s ++ t) (u ++ v) := by
  intro depth r
  rw [String.toList_append, List.append_assoc, hs, ht, String.toList_append]
  split <;> simp

theorem outside_plain {cs : List Char} (h : cs.all (fun c => c ≠ '<' ∧ c ≠ '>') = true) (depth : Nat)
    (r : List Char) : outside depth (cs ++ r) = (if depth = 0 then cs else []) ++ outside depth r := by
  induction cs with
  | nil => simp
  | cons c cs ih =>
    simp only [List.all_cons, Bool.and_eq_true, decide_eq_true_eq] at h
    obtain ⟨⟨hopen, hclose⟩, hcs⟩ := h
    rw [List.cons_append, outside, if_neg hopen, if_neg hclose, ih hcs]
    split <;> rfl

theorem leaves_plain (h : s.toList.all (fun c => c ≠ '<' ∧ c ≠ '>') = true) : Leaves s s :=
  outside_plain h

theorem Leaves.bracketed (ht : Leaves t v) : Leaves ("<" ++ t ++ ">") "" := by
  intro depth r
  have htext : ("<" ++ t ++ ">").toList ++ r = '<' :: (t.toList ++ '>' :: r) := by simp
  rw [htext, outside, if_pos rfl, ht, if_neg (by omega), List.nil_append, outside,
    if_neg (by decide), if_pos rfl]
  simp

theorem leaves_generic (hs : Leaves s u) (ht : Leaves t v) : Leaves (s ++ "<" ++ t ++ ">") u := by
  have h := hs.append ht.bracketed
  rwa [String.append_empty, ← String.append_assoc, ← String.append_assoc] at h

theorem plain_of_isIdentifier (h : IsIdentifier s) :
    s.toList.all (fun c => c ≠ '<' ∧ c ≠ '>') = true := by
  obtain ⟨c, cs, hs, -, hpart⟩ := h
  rw [hs, List.all_eq_true]
  intro x hx
  have hne : x ≠ '<' ∧ x ≠ '>' := by
    constructor <;> rintro rfl <;> exact absurd (hpart _ hx) (by decide)
  exact decide_eq_true hne

theorem bar_not_mem_of_isIdentifier (h : IsIdentifier s) : '|' ∉ s.toList := by
  obtain ⟨c, cs, hs, -, hpart⟩ := h
  rw [hs]
  exact fun hbar => absurd (hpart _ hbar) (by decide)

mutual

/-- Outside of its brackets a type has a bar only where it is a union at its top. -/
theorem exists_leaves : ∀ (t : TypeExpr) (_ : Named t),
    ∃ u, Leaves t.text u ∧ (t.isOptional = false → '|' ∉ u.toList)
  | .array t, h =>
    have ⟨_, ht, _⟩ := exists_leaves t h
    ⟨"ReadonlyArray", leaves_generic (s := "ReadonlyArray") (leaves_plain rfl) ht, fun _ => by decide⟩
  | .record t, h => by
    obtain ⟨u, ht, -⟩ := exists_leaves t h
    have htext : (TypeExpr.record t).text =
        "Readonly" ++ "<" ++ ("Record" ++ "<" ++ ("string, " ++ t.text) ++ ">") ++ ">" := by
      change "Readonly<Record<string, " ++ t.text ++ ">>" = _
      simp [← String.toList_inj]
    have hargs := (leaves_plain (s := "string, ") rfl).append ht
    rw [htext]
    exact ⟨"Readonly", leaves_generic (leaves_plain rfl) (leaves_generic (leaves_plain rfl) hargs),
      fun _ => by decide⟩
  | .reference id, h =>
    have hid := h id (List.mem_singleton_self id)
    ⟨id, leaves_plain (plain_of_isIdentifier hid), fun _ => bar_not_mem_of_isIdentifier hid⟩
  | .generic id ts, h =>
    have h := List.forall_mem_cons.mp h
    have ⟨_, hts⟩ := exists_leaves_list ts h.2
    ⟨id, leaves_generic (leaves_plain (plain_of_isIdentifier h.1)) hts,
      fun _ => bar_not_mem_of_isIdentifier h.1⟩
  | .optional t, h =>
    have ⟨_, ht, _⟩ := exists_leaves t h
    ⟨_, ht.append (leaves_plain (s := " | undefined") rfl), nofun⟩
  | .promise t, h =>
    have ⟨_, ht, _⟩ := exists_leaves t h
    ⟨"Promise", leaves_generic (s := "Promise") (leaves_plain rfl) ht, fun _ => by decide⟩
  | .typeOf id, h =>
    have hid := h id (List.mem_singleton_self id)
    ⟨_, (leaves_plain rfl).append (leaves_plain (plain_of_isIdentifier hid)), fun _ => by
      rw [String.toList_append, List.mem_append, not_or]
      exact ⟨by decide, bar_not_mem_of_isIdentifier hid⟩⟩
  | .string, _ => ⟨"string", leaves_plain rfl, fun _ => by decide⟩
  | .number, _ => ⟨"number", leaves_plain rfl, fun _ => by decide⟩
  | .boolean, _ => ⟨"boolean", leaves_plain rfl, fun _ => by decide⟩
  | .unknown, _ => ⟨"unknown", leaves_plain rfl, fun _ => by decide⟩
  | .any, _ => ⟨"any", leaves_plain rfl, fun _ => by decide⟩
  | .void, _ => ⟨"void", leaves_plain rfl, fun _ => by decide⟩

theorem exists_leaves_list : ∀ (ts : List TypeExpr)
    (_ : ∀ id ∈ TypeExpr.namesOfList ts, IsIdentifier id), ∃ u, Leaves (TypeExpr.listText ts) u
  | [], _ => ⟨"", leaves_plain rfl⟩
  | [t], h =>
    have ⟨u, ht, _⟩ := exists_leaves t fun id hid => h id (List.mem_append_left _ hid)
    ⟨u, ht⟩
  | t :: u :: ts, h =>
    have h := List.forall_mem_append.mp h
    have ⟨_, ht, _⟩ := exists_leaves t h.1
    have ⟨_, hts⟩ := exists_leaves_list (u :: ts) h.2
    ⟨_, (ht.append (leaves_plain (s := ", ") rfl)).append hts⟩

end

theorem admitsUndefined_iff {t : TypeExpr} (h : Named t) :
    AdmitsUndefined t.text ↔ t.isOptional = true := by
  obtain ⟨u, hleaves, hbar⟩ := exists_leaves t h
  have houtside : outside 0 t.text.toList = u.toList := by
    simpa [outside] using hleaves 0 []
  rw [AdmitsUndefined, houtside]
  constructor
  · intro hinside
    by_contra hoptional
    exact hbar (Bool.eq_false_iff.mpr hoptional) (hinside.subset (by decide))
  · intro hoptional
    cases t with
    | optional t =>
      obtain ⟨v, ht, -⟩ := exists_leaves t h
      have hsuffix := (ht.append (leaves_plain (s := " | undefined") rfl)) 0 []
      have htext : (TypeExpr.optional t).text = t.text ++ " | undefined" := rfl
      rw [htext] at houtside
      rw [List.append_nil, houtside] at hsuffix
      rw [hsuffix]
      simp only [outside, if_true, String.toList_append, List.append_nil]
      exact (List.suffix_append _ _).isInfix
    | _ => cases hoptional

end Types

section Declarations

variable {p : Parameter} {a : Argument}

/-- An argument for a parameter, its type with `undefined` at the top just when the schema admits
null. -/
structure IsFor (p : Parameter) (a : Argument) : Prop where
  name : IsNamed p (declarationOf a)
  optional : a.optional = p.optional
  type : ∃ t, t.isOptional = false ∧ a.type = if p.schema.nullable then .optional t else t

theorem IsFor.omissible (h : IsFor p a) (hmarked : a.trailing = true) (hn : Named a.type) :
    Omissible p (declarationOf a) := by
  refine ⟨h.name, hmarked, ?_⟩
  obtain ⟨t, ht, htype⟩ := h.type
  have hrequired : declaredType a = t := by
    rw [declaredType, if_pos hmarked, htype]
    split
    · rfl
    · exact required_of_settled ht
  rw [declarationOf, admitsUndefined_iff (named_declaredType hn), hrequired, ht]
  exact nofun

theorem IsFor.positional (h : IsFor p a) (hmarked : a.trailing = false) (hn : Named a.type) :
    Positional p (declarationOf a) := by
  refine ⟨h.name, hmarked, ?_⟩
  obtain ⟨t, ht, htype⟩ := h.type
  rw [declarationOf, admitsUndefined_iff (named_declaredType hn), declaredType, hmarked, h.optional, htype]
  have hunion : (TypeExpr.optional t).isOptional = true := rfl
  have hagain : (TypeExpr.optional t).orUndefined = .optional t := rfl
  cases p.optional <;> cases p.schema.nullable <;>
    simp [orUndefined_of_settled ht, ht, hunion, hagain]

end Declarations

section Arguments

variable {ps : List Parameter} {as : List Argument}

/-- An element in front of a list belongs to the longest list at its end just where all does. -/
theorem rdropWhile_cons {α : Type} {f : α → Bool} {x : α} {xs : List α}
    (h : ¬ ∀ y ∈ x :: xs, f y = true) : (x :: xs).rdropWhile f = x :: xs.rdropWhile f ∧
      (x :: xs).rtakeWhile f = xs.rtakeWhile f := by
  have hdrop : (x :: xs).rdropWhile f = x :: xs.rdropWhile f := by
    unfold List.rdropWhile
    rw [List.reverse_cons, List.dropWhile_append]
    split
    · rename_i hnil
      have hall : ∀ y ∈ xs, f y = true := by simpa using hnil
      have hx : f x ≠ true := fun hx => h (List.forall_mem_cons.mpr ⟨hx, hall⟩)
      rw [List.isEmpty_iff.mp hnil, List.dropWhile_cons_of_neg hx]
      rfl
    · rw [List.reverse_append]
      rfl
  have hwhole : (x :: xs).rdropWhile f ++ (x :: xs).rtakeWhile f =
      x :: (xs.rdropWhile f ++ xs.rtakeWhile f) := by
    rw [List.rdropWhile_append_rtakeWhile, List.rdropWhile_append_rtakeWhile]
  rw [hdrop, List.cons_append] at hwhole
  exact ⟨hdrop, List.append_cancel_left (List.cons.inj hwhole).2⟩

theorem arguments_cons (p : Parameter) (ps : List Parameter) (d : Draft) :
    ∃ a d', ((arguments (p :: ps)).run d).1 = a :: ((arguments ps).run d').1 ∧ IsFor p a ∧
      a.trailing = (p.optional && ps.all Parameter.optional) := by
  obtain ⟨t, d', -, ht, htype⟩ := valueType_run p.schema ((Draft.reserve p.name).run d).2
  rw [arguments, run_bind, run_bind, htype, run_bind]
  refine ⟨_, d', rfl, ⟨?_, rfl, t, ht, rfl⟩, rfl⟩
  obtain ⟨-, -, hname⟩ | ⟨-, n, -, hname, -⟩ := freshName_isNameFor d.imports p.name
  · exact .inl hname
  · exact .inr ⟨n, hname⟩

/-- The declarations for some parameters: first those for the parameters up to the last that is not
optional, and then those that have a question mark. -/
theorem arguments_split (ps : List Parameter) (d : Draft)
    (h : ∀ a ∈ ((arguments ps).run d).1, NamedArgument a) :
    ∃ xs ys, ((arguments ps).run d).1.map declarationOf = xs ++ ys ∧
      List.Forall₂ Positional (ps.rdropWhile Parameter.optional) xs ∧
      List.Forall₂ Omissible (ps.rtakeWhile Parameter.optional) ys := by
  induction ps generalizing d with
  | nil => exact ⟨[], [], rfl, .nil, .nil⟩
  | cons p ps ih =>
    obtain ⟨a, d', hargs, ha, htrailing⟩ := arguments_cons p ps d
    rw [hargs, List.forall_mem_cons] at h
    obtain ⟨xs, ys, hrest, hxs, hys⟩ := ih d' h.2
    rw [hargs, List.map_cons, hrest]
    by_cases hall : ∀ q ∈ p :: ps, q.optional = true
    · -- the first parameter is one more of those at the end, and there are no others
      obtain ⟨hp, hps⟩ := List.forall_mem_cons.mp hall
      rw [List.rdropWhile_eq_nil_iff.mpr hps] at hxs
      rw [List.rtakeWhile_eq_self_iff.mpr hps] at hys
      rw [List.rdropWhile_eq_nil_iff.mpr hall, List.rtakeWhile_eq_self_iff.mpr hall]
      obtain rfl := List.forall₂_nil_left_iff.mp hxs
      rw [hp, List.all_eq_true.mpr hps] at htrailing
      exact ⟨[], _ :: ys, rfl, .nil, .cons (ha.omissible htrailing h.1.type) hys⟩
    · obtain ⟨hdrop, htake⟩ := rdropWhile_cons hall
      rw [← List.all_cons, Bool.eq_false_iff.mpr (mt List.all_eq_true.mp hall)] at htrailing
      rw [hdrop, htake]
      exact ⟨_ :: xs, ys, rfl, .cons (ha.positional htrailing h.1.type) hxs, hys⟩

theorem functionsOf_arguments (exported : List String) (ops : List Operation) (d : Draft) :
    ∀ f ∈ ((functionsOf exported ops).run d).1,
      ∃ e, f.arguments = ((arguments f.operation.parameters).run e).1 := by
  induction ops generalizing exported d with
  | nil => exact nofun
  | cons op ops ih =>
    rw [functionsOf, run_bind, run_bind, run_bind]
    exact List.forall_mem_cons.mpr ⟨⟨_, rfl⟩, ih _ _⟩

theorem declaresFunction_text {f : Function} {d : Draft} (h : NamedFunction f)
    (hargs : f.arguments = ((arguments f.operation.parameters).run d).1) (service client : String) :
    DeclaresFunction f.operation (f.text service client) := by
  have hnamed := h.arguments
  rw [hargs] at hnamed
  obtain ⟨xs, ys, hsplit, hxs, hys⟩ := arguments_split f.operation.parameters d hnamed
  obtain ⟨halone, hwhole⟩ := read?_header h service client
  refine ⟨_, _, xs, ys, text_eq service client f, halone, hwhole, ?_, hxs, hys⟩
  rw [headerOf, hargs, hsplit]

end Arguments

/-- The text of an endpoint module has a function for each operation, and another declaration behind
them. Of the parameters of a function those that belong to the longest list at the end whose members are
all optional have a question mark, and none of these has `undefined` in a union at the top of its type;
each of the others has that just when it is optional or its schema admits null. -/
theorem parameters_marked (s : Service) (settings : Settings) (source : String) :
    let d := draft s settings source
    ∃ texts last,
      d.finish.contents = d.header ++ String.join (d.imports.statements.map ("\n" ++ ·)) ++
        String.join ((texts ++ [last]).map ("\n\n" ++ ·)) ++ "\n" ∧
      List.Forall₂ DeclaresFunction s.operations texts := by
  have hmade := EmittedCalls.made_functions s settings source
  have harguments : ∀ f ∈ (made s settings source).1.functions,
      ∃ d, f.arguments = ((arguments f.operation.parameters).run d).1 :=
    functionsOf_arguments [] s.operations _
  rw [draft]
  generalize made s settings source = m at hmade harguments ⊢
  obtain ⟨e, d⟩ := m
  obtain ⟨hops, -, -, hfunctions⟩ := hmade
  have hlast : e.declarations s.name = e.functions.map (Function.text s.name e.client) ++
      ["export const " ++ e.aggregate ++ " = Object.freeze(\x7b" ++
        String.join (e.functions.map fun f =>
          "\n  " ++ propertyKey f.operation.name ++ ": " ++ f.binding ++ ",") ++
        "\n\x7d);\nexport default " ++ e.aggregate ++ ";"] := rfl
  refine ⟨e.functions.map (Function.text s.name e.client), e.aggregateText, contents_eq hlast, ?_⟩
  rw [← hops, List.forall₂_map_left_iff, List.forall₂_map_right_iff, List.forall₂_same]
  intro f hf
  obtain ⟨d, hargs⟩ := harguments f hf
  exact declaresFunction_text (hfunctions f hf).1 hargs s.name e.client

end TypedClient.Proofs.OptionalParameters
