import Mathlib.Data.List.Induction
import Slate.Diagnostic
import Slate.NameTable
import Slate.Tree

/-! # Problems seen from the tree

An analysis that finds the problems of a program on its tree, without blocks, registers or slots. Of functions
it knows how they are called, whether they have a body and whether something calls them; of variables it
knows which names the current function has declared so far; of expressions, whether they have a value.

Expressions are visited in the order in which they run, and `visit_reported` says what that means for
variables: a read is reported exactly if no parameter and no assignment visited before it has declared its name.
-/

namespace Slate.Analysis
set_option autoImplicit false

/-- What a call has to know of a function. -/
structure Shape where
  /-- The arguments before any variadic ones. -/
  arity : Nat
  variadic : Bool := false
  valued : Bool := true
  deriving DecidableEq

def Shape.takes (shape : Shape) (given : Nat) : Bool :=
  if shape.variadic then decide (shape.arity ≤ given) else decide (given = shape.arity)

/-- A function of the program. A function whose definition was malformed is known without being callable,
as long as there are calls of it. -/
structure Known extends Shape where
  hasBody : Bool := false
  callable : Bool := true
  deriving DecidableEq

inductive Visit where
  /-- A parameter, or the target of an assignment. -/
  | declares (name : String)
  | reads (name : Name) (known : Bool)
  deriving DecidableEq

/-- What was seen in a function, in the order in which it was seen. -/
structure Notes where
  visits : List Visit
  calls : List String := []
  reports : List Diagnostic := []

abbrev Visitor := StateM Notes

def declare (name : String) : Visitor Unit := modify fun notes =>
  { notes with visits := notes.visits ++ [.declares name] }

def complain (complaint : Complaint) (span : Span) : Visitor Unit := modify fun notes =>
  { notes with reports := notes.reports ++ [⟨complaint, span⟩] }

def read (name : Name) : Visitor Bool := do
  let known := decide (.declares name.text ∈ (← get).visits)
  modify fun notes => { notes with visits := notes.visits ++ [.reads name known] }
  if known then return true
  else
    complain (.undefinedVariable name.text) name.span
    return false

/-- A call whose arguments all have values. -/
def call (name : Name) (shape : Shape) (given : Nat) : Visitor Bool := do
  if shape.takes given then
    modify fun notes => { notes with calls := notes.calls ++ [name.text] }
    return shape.valued
  else
    complain (.argumentCountMismatch name.text shape.variadic shape.arity given) name.span
    return false

mutual

/-- Visits an expression and tells whether it has a value. -/
def visit (functions : String → Option Shape) : Expr → Visitor Bool
  | .int .. => return true
  | .binary _ _ lhs rhs | .compare _ _ lhs rhs => do
    let left ← visit functions lhs
    let right ← visit functions rhs
    return left && right
  | .variable _ name => read name
  | .assign _ target value => do
    declare target.text
    visit functions value
  | .branch _ condition positive negative => do
    if ← visit functions condition then
      let first ← visitArm functions true positive
      let second ← visitArm functions true negative
      return first && second
    else return false
  | .loop _ initializer condition step body => do
    let _ ← visit functions initializer
    let _ ← visit functions condition
    let _ ← visitArm functions false body
    let _ ← visit functions step
    return false
  | .call _ callee arguments => do
    match functions callee.text with
    | none =>
      complain (.undefinedFunction callee.text) callee.span
      return false
    | some shape =>
      if ← visitArguments functions arguments then call callee shape arguments.length
      else return false

/-- Visits a sequence, which has a value if its last expression has one. -/
def visitArm (functions : String → Option Shape) (valued : Bool) : List Expr → Visitor Bool
  | [] => return valued
  | first :: rest => do
    let result ← visit functions first
    visitArm functions result rest

def visitArguments (functions : String → Option Shape) : List Expr → Visitor Bool
  | [] => return true
  | first :: rest => do
    let valued ← visit functions first
    let others ← visitArguments functions rest
    return valued && others

end

/-! ## Programs -/

structure Overview where
  functions : NameTable Known
  /-- The functions that the entry function calls, or a body that was kept. -/
  called : List String := []
  /-- What was visited of the entry function. -/
  main : List Visit := []

def reserved : List String := ["main", "puts", "_puts"]

/-- The first parameter whose name an earlier one has. -/
def repeated? (names : List Name) : Option Name :=
  (names.zipIdx.find? fun entry =>
    (names.take entry.2).any fun earlier => decide (earlier.text = entry.1.text)).map Prod.fst

namespace Overview

def start : Overview where
  functions := NameTable.empty.insert "puts" { arity := 0, variadic := true, valued := false }

def shape? (overview : Overview) (name : String) : Option Shape :=
  (overview.functions.find? name).bind fun known => if known.callable then some known.toShape else none

def problem? (overview : Overview) (head : Prototype) : Option Diagnostic :=
  let name := head.name.text
  let arity := head.parameters.length
  if name ∈ reserved then some ⟨.reservedName name, head.name.span⟩
  else match repeated? head.parameters with
  | some parameter => some ⟨.duplicateParameter parameter.text name, parameter.span⟩
  | none =>
    match overview.functions.find? name with
    | none => none
    | some known =>
      if known.hasBody then some ⟨.alreadyDefined name, head.name.span⟩
      else if known.arity ≠ arity then some ⟨.arityChanged name known.arity arity, head.span⟩
      else none

def declare (overview : Overview) (head : Prototype) : Overview :=
  { overview with
    functions := overview.functions.insert head.name.text { arity := head.parameters.length } }

def define (overview : Overview) (head : Prototype) (calls : List String) : Overview :=
  { overview with
    functions := overview.functions.insert head.name.text
      { arity := head.parameters.length, hasBody := true }
    called := overview.called ++ calls }

/-- Gives up a function, but for the calls of it that were kept. -/
def withdraw (overview : Overview) (head : Prototype) : Overview :=
  { overview with
    functions :=
      if head.name.text ∈ overview.called then
        overview.functions.insert head.name.text { arity := head.parameters.length, callable := false }
      else overview.functions.erase head.name.text }

def visitBody (overview : Overview) (head : Prototype) (body : Expr) : Bool × Notes :=
  visit overview.shape? body { visits := head.parameters.map fun parameter => .declares parameter.text }

def definition (overview : Overview) (head : Prototype) (body : Expr) : Overview × List Diagnostic :=
  match overview.problem? head with
  | some problem => (overview, [problem])
  | none =>
    let declared := overview.declare head
    let result := declared.visitBody head body
    if result.1 then (declared.define head result.2.calls, result.2.reports)
    else (declared.withdraw head, result.2.reports ++ [⟨.malformedBody head.name.text, body.span⟩])

def topLevel (overview : Overview) (body : Expr) : Overview × List Diagnostic :=
  let notes := (visit overview.shape? body { visits := overview.main }).2
  ({ overview with called := overview.called ++ notes.calls, main := notes.visits }, notes.reports)

def item (overview : Overview) : Item → Overview × List Diagnostic
  | .declaration _ head =>
    match overview.problem? head with
    | some problem => (overview, [problem])
    | none => (overview.declare head, [])
  | .definition _ head body => overview.definition head body
  | .expression body => overview.topLevel body

def problems (overview : Overview) : List Item → List Diagnostic
  | [] => []
  | first :: rest => (overview.item first).2 ++ (overview.item first).1.problems rest

/-- What is known after some items. -/
def after (overview : Overview) : List Item → Overview
  | [] => overview
  | first :: rest => (overview.item first).1.after rest

/-- Whether the body of a definition has a value, where its own function can be called. -/
def bodyValued (overview : Overview) (head : Prototype) (body : Expr) : Bool :=
  ((overview.declare head).visitBody head body).1

end Overview

/-! ## Variables -/

/-- The variables in the order in which they are first declared. -/
def declaredNames (visits : List Visit) : List String :=
  visits.foldl (fun names visit =>
    match visit with
    | .declares name => if name ∈ names then names else names ++ [name]
    | .reads .. => names) []

theorem declaredNames_declares (visits : List Visit) (name : String) :
    declaredNames (visits ++ [.declares name]) =
      if name ∈ declaredNames visits then declaredNames visits else declaredNames visits ++ [name] := by
  rw [declaredNames, List.foldl_append]
  rfl

@[simp] theorem declaredNames_reads (visits : List Visit) (name : Name) (known : Bool) :
    declaredNames (visits ++ [.reads name known]) = declaredNames visits := by
  rw [declaredNames, List.foldl_append]
  rfl

theorem mem_declaredNames_iff (visits : List Visit) (name : String) :
    name ∈ declaredNames visits ↔ .declares name ∈ visits := by
  induction visits using List.reverseRecOn with
  | nil => simp [declaredNames]
  | append_singleton visits visit ih =>
    cases visit with
    | declares other =>
      rw [declaredNames_declares]
      split
      · rename_i hMem
        constructor
        · intro hName
          simp [ih.mp hName]
        · intro hName
          rcases List.mem_append.mp hName with hName | hName
          · exact ih.mpr hName
          · cases List.mem_singleton.mp hName
            exact hMem
      · simp [ih]
    | reads other known => simp [ih]

theorem nodup_declaredNames (visits : List Visit) : (declaredNames visits).Nodup := by
  induction visits using List.reverseRecOn with
  | nil => exact List.nodup_nil
  | append_singleton visits visit ih =>
    cases visit with
    | declares name =>
      rw [declaredNames_declares]
      split
      · exact ih
      · rename_i hNew
        rw [List.nodup_append]
        refine ⟨ih, by simp, ?_⟩
        rintro other hOther last hLast rfl
        rw [List.mem_singleton.mp hLast] at hOther
        exact hNew hOther
    | reads name known =>
      rw [declaredNames_reads]
      exact ih

theorem declaredNames_prefix (visits more : List Visit) :
    declaredNames visits <+: declaredNames (visits ++ more) := by
  induction more using List.reverseRecOn with
  | nil => simp
  | append_singleton more visit ih =>
    rw [← List.append_assoc]
    cases visit with
    | declares name =>
      rw [declaredNames_declares]
      split
      · exact ih
      · exact ih.trans (List.prefix_append _ _)
    | reads name known =>
      rw [declaredNames_reads]
      exact ih

theorem declaredNames_map_declares {names : List String} (h : names.Nodup) :
    declaredNames (names.map Visit.declares) = names := by
  induction names using List.reverseRecOn with
  | nil => rfl
  | append_singleton names name ih =>
    rw [List.nodup_append] at h
    have hNew : name ∉ names := fun hMem => h.2.2 name hMem name (by simp) rfl
    rw [List.map_append, List.map_singleton, declaredNames_declares, ih h.1, if_neg hNew]

/-! ## Reported reads -/

def Visit.problem? : Visit → Option Diagnostic
  | .reads name false => some ⟨.undefinedVariable name.text, name.span⟩
  | _ => none

def isUnknownVariable (problem : Diagnostic) : Bool :=
  match problem.complaint with
  | .undefinedVariable _ => true
  | _ => false

/-- What became of reads after some earlier visits: a variable was known exactly if it was declared before
the read, and the reads of the others were reported in order. -/
structure Reported (earlier visits : List Visit) (reports : List Diagnostic) : Prop where
  known : ∀ position name known, visits[position]? = some (.reads name known) →
    (known = true ↔ .declares name.text ∈ earlier ++ visits.take position)
  reports : reports.filter isUnknownVariable = visits.filterMap Visit.problem?

namespace Reported

variable {earlier visits : List Visit} {reports : List Diagnostic}

theorem nil (earlier : List Visit) : Reported earlier [] [] := by
  refine ⟨?_, rfl⟩
  intro position name known hVisit
  simp at hVisit

theorem push (h : Reported earlier visits reports) (visit : Visit) (new : List Diagnostic)
    (hKnown : ∀ name known, visit = .reads name known →
      (known = true ↔ .declares name.text ∈ earlier ++ visits))
    (hNew : new.filter isUnknownVariable = visit.problem?.toList) :
    Reported earlier (visits ++ [visit]) (reports ++ new) := by
  constructor
  · intro position name known hVisit
    by_cases hOld : position < visits.length
    · rw [List.getElem?_append_left hOld] at hVisit
      rw [List.take_append_of_le_length (Nat.le_of_lt hOld)]
      exact h.known position name known hVisit
    · have hLast : position = visits.length := by
        obtain ⟨hLess, -⟩ := List.getElem?_eq_some_iff.mp hVisit
        rw [List.length_append, List.length_singleton] at hLess
        omega
      rw [hLast, List.getElem?_concat_length] at hVisit
      rw [hLast, List.take_left]
      exact hKnown name known (Option.some.inj hVisit)
  · rw [List.filter_append, List.filterMap_append, h.reports, hNew, List.filterMap_cons]
    cases visit.problem? <;> rfl

theorem report (h : Reported earlier visits reports) {problem : Diagnostic}
    (hOther : isUnknownVariable problem = false) : Reported earlier visits (reports ++ [problem]) := by
  refine ⟨h.known, ?_⟩
  rw [List.filter_append, h.reports, List.filter_cons_of_neg (by simp [hOther]), List.filter_nil,
    List.append_nil]

end Reported

theorem read_of_known {name : Name} {notes : Notes} (h : .declares name.text ∈ notes.visits) :
    read name notes = (true, { notes with visits := notes.visits ++ [.reads name true] }) := by
  have hKnown : decide (.declares name.text ∈ notes.visits) = true := decide_eq_true h
  change (if decide (.declares name.text ∈ notes.visits) = true then _ else _ : Visitor Bool) _ = _
  rw [hKnown]
  rfl

theorem read_of_unknown {name : Name} {notes : Notes} (h : .declares name.text ∉ notes.visits) :
    read name notes = (false, { notes with
      visits := notes.visits ++ [.reads name false]
      reports := notes.reports ++ [⟨.undefinedVariable name.text, name.span⟩] }) := by
  have hKnown : decide (.declares name.text ∈ notes.visits) = false := decide_eq_false h
  change (if decide (.declares name.text ∈ notes.visits) = true then _ else _ : Visitor Bool) _ = _
  rw [hKnown]
  rfl

/-- Keeps track of what was reported since the earlier visits. -/
def Keeps {α : Type} (earlier : List Visit) (action : Visitor α) : Prop :=
  ∀ notes : Notes, (∃ visits, notes.visits = earlier ++ visits ∧ Reported earlier visits notes.reports) →
    ∃ visits, (action notes).2.visits = earlier ++ visits ∧
      Reported earlier visits (action notes).2.reports

namespace Keeps

variable {α β : Type} {earlier : List Visit}

theorem pure (a : α) : Keeps earlier (Pure.pure a : Visitor α) := fun _ h => h

theorem bind {action : Visitor α} {next : α → Visitor β} (h : Keeps earlier action)
    (hNext : ∀ a, Keeps earlier (next a)) : Keeps earlier (action >>= next) :=
  fun notes hNotes => hNext _ _ (h notes hNotes)

theorem declare (name : String) : Keeps earlier (Analysis.declare name) := by
  rintro notes ⟨visits, hVisits, hReported⟩
  refine ⟨visits ++ [.declares name], ?_, ?_⟩
  · exact (congrArg (· ++ [.declares name]) hVisits).trans (List.append_assoc _ _ _)
  · have hPush := hReported.push (.declares name) [] (fun _ _ hEq => by cases hEq) rfl
    rwa [List.append_nil] at hPush

theorem complain {complaint : Complaint} {span : Span}
    (hOther : isUnknownVariable ⟨complaint, span⟩ = false) :
    Keeps earlier (Analysis.complain complaint span) := by
  rintro notes ⟨visits, hVisits, hReported⟩
  exact ⟨visits, hVisits, hReported.report hOther⟩

theorem read (name : Name) : Keeps earlier (Analysis.read name) := by
  rintro notes ⟨visits, hVisits, hReported⟩
  have hAppend : ∀ visit, notes.visits ++ [visit] = earlier ++ (visits ++ [visit]) := by
    intro visit
    rw [hVisits, List.append_assoc]
  by_cases hKnown : .declares name.text ∈ notes.visits
  · rw [read_of_known hKnown]
    refine ⟨visits ++ [.reads name true], hAppend _, ?_⟩
    have hPush := hReported.push (.reads name true) [] ?_ rfl
    · rwa [List.append_nil] at hPush
    · rintro _ _ ⟨⟩
      rw [← hVisits]
      exact iff_of_true rfl hKnown
  · rw [read_of_unknown hKnown]
    refine ⟨visits ++ [.reads name false], hAppend _, hReported.push (.reads name false) _ ?_ rfl⟩
    rintro _ _ ⟨⟩
    rw [← hVisits]
    exact iff_of_false Bool.false_ne_true hKnown

theorem call (name : Name) (shape : Shape) (given : Nat) :
    Keeps earlier (Analysis.call name shape given) := by
  rw [Analysis.call]
  split
  · exact .bind (fun _ h => h) fun _ => .pure _
  · exact .bind (.complain rfl) fun _ => .pure _

end Keeps

mutual

theorem visit_keeps (functions : String → Option Shape) (earlier : List Visit) (e : Expr) :
    Keeps earlier (visit functions e) := by
  cases e with
  | int span value =>
    rw [visit]
    exact .pure _
  | binary span op lhs rhs | compare span op lhs rhs =>
    rw [visit]
    refine .bind (visit_keeps functions earlier lhs) fun left => ?_
    exact .bind (visit_keeps functions earlier rhs) fun right => .pure _
  | «variable» span name =>
    rw [visit]
    exact .read name
  | assign span target value =>
    rw [visit]
    exact .bind (.declare target.text) fun _ => visit_keeps functions earlier value
  | branch span condition positive negative =>
    rw [visit]
    refine .bind (visit_keeps functions earlier condition) fun valued => ?_
    cases valued with
    | true =>
      refine .bind (visitArm_keeps functions earlier true positive) fun first => ?_
      exact .bind (visitArm_keeps functions earlier true negative) fun second => .pure _
    | false => exact .pure _
  | loop span initializer condition step body =>
    rw [visit]
    refine .bind (visit_keeps functions earlier initializer) fun _ => ?_
    refine .bind (visit_keeps functions earlier condition) fun _ => ?_
    refine .bind (visitArm_keeps functions earlier false body) fun _ => ?_
    exact .bind (visit_keeps functions earlier step) fun _ => .pure _
  | call span callee arguments =>
    rw [visit]
    cases functions callee.text with
    | none => exact .bind (.complain rfl) fun _ => .pure _
    | some shape =>
      refine .bind (visitArguments_keeps functions earlier arguments) fun valued => ?_
      cases valued with
      | true => exact .call callee shape arguments.length
      | false => exact .pure _

theorem visitArm_keeps (functions : String → Option Shape) (earlier : List Visit) (valued : Bool)
    (es : List Expr) : Keeps earlier (visitArm functions valued es) := by
  cases es with
  | nil =>
    rw [visitArm]
    exact .pure _
  | cons first rest =>
    rw [visitArm]
    exact .bind (visit_keeps functions earlier first) fun result =>
      visitArm_keeps functions earlier result rest

theorem visitArguments_keeps (functions : String → Option Shape) (earlier : List Visit)
    (es : List Expr) : Keeps earlier (visitArguments functions es) := by
  cases es with
  | nil =>
    rw [visitArguments]
    exact .pure _
  | cons first rest =>
    rw [visitArguments]
    refine .bind (visit_keeps functions earlier first) fun valued => ?_
    exact .bind (visitArguments_keeps functions earlier rest) fun others => .pure _

end

theorem visit_reported (functions : String → Option Shape) (e : Expr) (earlier : List Visit) :
    ∃ visits, (visit functions e { visits := earlier }).2.visits = earlier ++ visits ∧
      Reported earlier visits (visit functions e { visits := earlier }).2.reports :=
  visit_keeps functions earlier e _ ⟨[], (List.append_nil earlier).symm, .nil earlier⟩

-- In `x + (x = x)` only the first read comes before the target of the assignment.
example (span : Span) : Overview.start.problems [.expression (.binary span .add (.variable span ⟨"x", span⟩)
    (.assign span ⟨"x", span⟩ (.variable span ⟨"x", span⟩)))] = [⟨.undefinedVariable "x", span⟩] := by
  rfl

end Slate.Analysis
