import JsonScript.Proofs.DocumentReadings
import JsonScript.Proofs.WrittenTrees
import Mathlib

/-!
# Routines that are defined more than once

The reader of a section of routines refuses a name that is taken. It never has to: it
sees an object from which all but the last definition of a name are gone already. So a
text may define a routine as often as it likes. All definitions but the last one are
dropped without a word, and what they hold is not even read as a routine.

## Main results

* `RoutineTable.readInto_eq_mapM` — under distinct keys the check is never reached.
* `find_last_definition` — in the program of an accepted text, the definition that is
  written last is the one found.
-/

namespace JsonScript

open Reading

/-- The object that is written last under `program` has these definitions, the object
that is written last under its `functions`. -/
def Json.WritesFunctions (w : Json) (definitions : Json.Members) : Prop :=
  ∃ top sections, w = .object top ∧
    Json.writtenLast "program" top = some (.object sections) ∧
    Json.writtenLast "functions" sections = some (.object definitions)

/-! ## The check -/

/-- Reads each definition on its own. -/
def Routine.readEach (place : Location) (members : Json.Members) : Reading (List Routine) :=
  members.mapM fun m => Routine.read (place.key m.1) m.1 m.2

/-- The table of routines that are added one after the other. -/
def RoutineTable.ofRoutines (routines : List Routine) : RoutineTable :=
  ⟨.ofList (routines.map fun r => (r.name, r))⟩

/-- Under distinct keys that the table does not have yet, a section is read as its
definitions are, each on its own: the check for names that are taken adds no complaint. -/
theorem RoutineTable.readInto_eq_mapM (place : Location) (members : Json.Members) :
    ∀ table : RoutineTable, (Json.keys members).Nodup →
      (∀ key ∈ Json.keys members, table.routines.contains key = false) →
      table.readInto place members = (Routine.readEach place members).map fun routines =>
        ⟨routines.foldl (fun m r => m.insert r.name r) table.routines⟩ := by
  induction members with
  | nil =>
      intro table _ _
      rfl
  | cons m rest ih =>
      obtain ⟨key, content⟩ := m
      intro table hkeys hfresh
      obtain ⟨hkey, hrest⟩ := List.nodup_cons.1 hkeys
      rw [readInto, Routine.readEach, List.mapM_cons]
      cases hr : Routine.read (place.key key) key content with
      | error e => rfl
      | ok r =>
          have hname : r.name = key := Routine.name_of_read hr
          have hdefine := define?_of_fresh (hname ▸ hfresh key List.mem_cons_self)
          simp only [bind, Except.bind, hdefine]
          rw [ih _ hrest fun k hk => ?fresh, Routine.readEach]
          case fresh =>
            have hne : (k == r.name) = false := beq_false_of_ne fun h => hkey (hname ▸ h ▸ hk)
            rw [contains_define? hdefine, hne, Bool.false_or]
            exact hfresh k (List.mem_cons_of_mem _ hk)
          cases rest.mapM fun m => Routine.read (place.key m.1) m.1 m.2 with
          | error e => rfl
          | ok routines => rfl

/-! ## Accepted texts -/

theorem Json.SpelledBy.uniqueKeys_merged {text : String} {w : Json} (hw : w.SpelledBy text)
    (hdepth : w.depth ≤ Reader.maxDepth) : w.merged.UniqueKeys := by
  have hread := Json.read_of_spelledBy hw
  rw [if_pos hdepth] at hread
  exact Json.uniqueKeys_of_read hread

/-- The routines of an accepted document are those of its merged definitions. -/
theorem denotesRoutines_of_read {refusal : String → String} {text : String} {w : Json}
    (hw : w.SpelledBy text) {definitions : Json.Members}
    (hdefinitions : w.WritesFunctions definitions) {p : Program}
    (h : Program.read refusal text = .ok p) :
    DenotesRoutines (.object (Json.mergedInto [] definitions)) p.routines := by
  obtain ⟨hdepth, hload⟩ := (Program.read_eq_ok_iff_of_spelledBy hw p).1 h
  have hunique := hw.uniqueKeys_merged hdepth
  obtain ⟨top, sections, rfl, hprogram, hfunctions⟩ := hdefinitions
  rw [Json.merged] at hload hunique
  have hsections : (Json.mergedInto [] top).lookup "program" =
      some (.object (Json.mergedInto [] sections)) := by
    rw [Json.lookup_merged, hprogram, Option.map_some, Json.merged]
  have hroutines : (Json.mergedInto [] sections).lookup "functions" =
      some (.object (Json.mergedInto [] definitions)) := by
    rw [Json.lookup_merged, hfunctions, Option.map_some, Json.merged]
  rcases (Program.ofJson_eq_ok_iff hunique p).1 hload with ⟨_, ⟨⟩, _⟩ | ⟨found, hfound, hassembled⟩
  rw [Json.object.injEq] at hfound
  rw [hfound] at hsections
  cases hsections
  exact (hasMemberOr_iff_of_lookup_eq_some hroutines).1 hassembled.routines

/-- **Of several definitions the last one is kept.**  Take a text that writes some tree in
which `functions` has these definitions, with any names as often as they like. The text is
accepted exactly if the tree follows the grammar once everything is gone that is written
over, and is not nested too deeply. The section is then read as its last definitions are,
each on its own, so no name is ever complained about for being taken. In the program of an
accepted text, a name finds what its last definition is read to, and nothing else. -/
theorem find_last_definition (refusal : String → String) {text : String} {w : Json}
    (hw : w.SpelledBy text) {definitions : Json.Members}
    (hdefinitions : w.WritesFunctions definitions) :
    ((∃ p, Program.read refusal text = .ok p) ↔ w.depth ≤ Reader.maxDepth ∧ IsDocument w.merged) ∧
    (∀ place, RoutineTable.empty.readInto place (Json.mergedInto [] definitions) =
      (Routine.readEach place (Json.mergedInto [] definitions)).map RoutineTable.ofRoutines) ∧
    ∀ p, Program.read refusal text = .ok p → ∀ name r,
      p.routines.find name = .ok r ↔
        ∃ content, Json.writtenLast name definitions = some content ∧
          Routine.read ((Location.ofRoot "functions").key name) name content.merged = .ok r := by
  have hkeys : (Json.keys (Json.mergedInto [] definitions)).Nodup :=
    Json.nodup_keys_mergedInto definitions List.nodup_nil
  refine ⟨?accepted, fun place => ?onItsOwn, fun p h name r => ?found⟩
  case accepted =>
    simp only [Program.read_eq_ok_iff_of_spelledBy hw, exists_and_left]
    refine and_congr_right fun hdepth => ?_
    exact Program.succeeds_ofJson_iff (hw.uniqueKeys_merged hdepth)
  case onItsOwn =>
    rw [RoutineTable.readInto_eq_mapM place _ .empty hkeys fun _ _ => rfl]
    congr 1
    funext routines
    rw [RoutineTable.ofRoutines, NameMap.ofList, List.foldl_map]
    rfl
  case found =>
    have hroutines := denotesRoutines_of_read hw hdefinitions h
    rw [hroutines.find_eq_ok_iff hkeys, Json.lookup_merged]
    simp only [Option.map_eq_some_iff, exists_exists_and_eq_and]

/-! ## A routine defined twice -/

/-- A document that defines a routine without parameters, and then one with a parameter
under the same name. -/
def definedTwice : Json :=
  .object [("program", .object [("functions", .object [
    ("f", .object [("parameters", .array []), ("body", .array [])]),
    ("f", .object [("parameters", .array [.string "a"]), ("body", .array [])])])])]

/-- The text of the document. -/
def definedTwiceText : String :=
  "\x7b\"program\":\x7b\"functions\":\x7b\"f\":\x7b\"parameters\":[],\"body\":[]\x7d,\"f\":\x7b\"parameters\":[\"a\"],\"body\":[]\x7d\x7d\x7d\x7d"

open Token in
theorem scan_definedTwiceText : Token.scan definedTwiceText.toList = .ok [
    openBrace, string "program", colon, openBrace, string "functions", colon, openBrace,
    string "f", colon, openBrace, string "parameters", colon, openBracket, closeBracket, comma,
    string "body", colon, openBracket, closeBracket, closeBrace, comma,
    string "f", colon, openBrace, string "parameters", colon, openBracket, string "a", closeBracket,
    comma, string "body", colon, openBracket, closeBracket, closeBrace,
    closeBrace, closeBrace, closeBrace] := by
  cbv

theorem spelledBy_definedTwiceText : definedTwice.SpelledBy definedTwiceText := by
  have hnone : ∀ p ∈ ([] : List (Json × List Token)), p.1.Spells p.2 := nofun
  have hempty := Json.Spells.array hnone
  have hone : ∀ p ∈ [(Json.string "a", [Token.string "a"])], p.1.Spells p.2 :=
    List.forall_mem_singleton.2 (.string "a")
  have hparameter := Json.Spells.array hone
  have hfirst := Json.Spells.pair "parameters" "body" hempty hempty
  have hsecond := Json.Spells.pair "parameters" "body" hparameter hempty
  have hdefinitions := hfirst.pair "f" "f" hsecond
  exact ⟨_, scan_definedTwiceText, (hdefinitions.single "functions").single "program"⟩

theorem exists_read_definedTwiceText (refusal : String → String) :
    ∃ p, Program.read refusal definedTwiceText = .ok p := by
  have haccepted : (Program.read refusal definedTwiceText).toBool = true := by cbv
  cases h : Program.read refusal definedTwiceText with
  | error d =>
      rw [h] at haccepted
      cases haccepted
  | ok p => exact ⟨p, rfl⟩

/-- The definition of `definedTwice` that is found is the second one. -/
theorem find_last_definition_definedTwice :
    ∃ p, Program.read id definedTwiceText = .ok p ∧
      p.routines.find "f" = .ok ⟨"f", ["a"], []⟩ := by
  have hdefinitions : definedTwice.WritesFunctions _ := ⟨_, _, rfl, rfl, rfl⟩
  obtain ⟨-, -, hfind⟩ := find_last_definition id spelledBy_definedTwiceText hdefinitions
  obtain ⟨p, h⟩ := exists_read_definedTwiceText id
  refine ⟨p, h, (hfind p h "f" _).2 ⟨_, rfl, ?_⟩⟩
  cbv

/-- Not every text is refused that defines a routine twice. -/
theorem not_refused_of_definedTwice :
    ¬ ∀ (text : String) (w : Json) (definitions : Json.Members), w.SpelledBy text →
      w.WritesFunctions definitions → ¬ (Json.keys definitions).Nodup →
        ∃ refusal d, Program.read refusal text = .error d := by
  intro h
  have hdefinitions : definedTwice.WritesFunctions _ := ⟨_, _, rfl, rfl, rfl⟩
  obtain ⟨refusal, d, hd⟩ := h definedTwiceText definedTwice _ spelledBy_definedTwiceText
    hdefinitions (by decide)
  obtain ⟨p, hp⟩ := exists_read_definedTwiceText refusal
  cases hp.symm.trans hd

end JsonScript
