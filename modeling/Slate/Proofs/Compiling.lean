import Slate.Proofs.Building.Program
import Slate.Proofs.Parser.Places
import Slate.Proofs.Verified
import Slate.Session

/-! # Parsed programs compile

Lowering a parsed program goes through without a failure of the builder, its problems can be shown in the text,
and the module is rendered and accepted.
-/

namespace Slate
set_option autoImplicit false

theorem verify_lowerProgram (name : String) (program : List Item) : (lowerProgram name program).1.verify = [] :=
  (Module.verify_eq_nil_iff _).mpr (lowerProgram_lowered name program).wellFormed

theorem within_of_diagnostic {source : Source} {program : List Item} {problem : Diagnostic}
    (hParse : source.parse = .ok program) (h : problem ∈ (Session.compile source program).diagnostics) :
    source.Within problem.span := by
  obtain ⟨event, hEvent, hProblem⟩ := List.mem_filterMap.mp h
  have hPlaced := Lowering.items_placed (.start source.origin.text) (Source.placed_of_parse hParse)
  cases event with
  | diagnostic other =>
    cases hProblem
    exact hPlaced problem hEvent
  | declared | lowered | produced => cases hProblem

/-- Problems of a parsed program lie between characters of its text. -/
theorem boundary_of_diagnostic {source : Source} {program : List Item} {problem : Diagnostic}
    (hParse : source.parse = .ok program) (h : problem ∈ (Session.compile source program).diagnostics) :
    source.Boundary problem.span.start :=
  (within_of_diagnostic hParse h).boundaries.1

/-- A session goes on behind lowering with what was lowered. -/
theorem Session.begin_of_parse {source : Source} {program : List Item} (settings : Settings)
    (hParse : source.parse = .ok program) : (begin settings source).2 = .ok (compile source program) := by
  have hVerify : (compile source program).module.verify = [] := verify_lowerProgram source.origin.text program
  simp only [begin, parse, hParse, verify, hVerify]

theorem Source.compiles (source : Source) (program : List Item) (settings : Settings)
    (hParse : source.parse = .ok program) :
    Building.lower source.origin.text program = some (lowerProgram source.origin.text program) ∧
      (∀ problem ∈ (Session.compile source program).diagnostics, (problem.report? source).isSome = true) ∧
      (Session.compile source program).module.render?.isSome = true ∧
      (Session.compile source program).module.verify = [] ∧
      (Session.begin settings source).2 = .ok (Session.compile source program) :=
  ⟨Building.lower_eq _ program, fun _ hMem => Diagnostic.isSome_report? (boundary_of_diagnostic hParse hMem),
    (lowerProgram_lowered _ program).isSome_render?, verify_lowerProgram _ program,
    Session.begin_of_parse settings hParse⟩

def discarded : Source := ⟨"# é\ndef f(a) b end x = f(1)", .memory⟩

def discardedItems : List Item :=
  [.definition ⟨5, 19⟩ ⟨⟨9, 13⟩, ⟨"f", 9, 10⟩, [⟨"a", 11, 12⟩]⟩ (.variable ⟨14, 15⟩ ⟨"b", 14, 15⟩),
    .expression (.assign ⟨20, 28⟩ ⟨"x", 20, 21⟩ (.call ⟨24, 28⟩ ⟨"f", 24, 25⟩ [.int ⟨26, 27⟩ 1]))]

theorem Source.compiles_discarded :
    discarded.parse = .ok discardedItems ∧
      (Session.compile discarded discardedItems).diagnostics.map Diagnostic.kind =
        ["undefined-variable", "malformed-function-body", "undefined-function"] ∧
      (∀ problem ∈ (Session.compile discarded discardedItems).diagnostics,
        (problem.report? discarded).isSome = true) ∧
      (Session.compile discarded discardedItems).module.verify = [] := by
  have hParse : discarded.parse = .ok discardedItems := by cbv
  obtain ⟨_, hReports, _, hVerify, _⟩ := Source.compiles discarded discardedItems {} hParse
  exact ⟨hParse, by cbv, hReports, hVerify⟩

end Slate
