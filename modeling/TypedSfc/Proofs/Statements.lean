import TypedSfc.Proofs.Generate.LineEnds
import TypedSfc.Proofs.TypedFile

/-!
# Statements that are added to the scripts

The code of a document is made of copied parts of its scripts, of statements that are added to them, and of the code of the template and
the styles. That code ends its lines, and so do the statements, so that the statements begin lines unless the text of a script does not
end one where they are added. One text decides: the one that is copied before the first statement that does not take care of it.
-/

namespace TypedSfc

namespace TypedFile

open Generate (BeginLines Scene Setting State Written piecesOf)

variable {reader : Script.Reader} {o : Options} {filename : Option String} {d : Document}

theorem whole_ofDocument (reader : Script.Reader) (o : Options) (filename : Option String) (d : Document) :
    (Draft.ofDocument reader o filename d).whole =
      (sceneOf reader o filename d).write (Draft.ofDocument reader o filename d).inner.code := rfl

/-! ## The code of the template and the styles -/

theorem atLineStart_continueFrom (c : Code) : c.continueFrom.atLineStart = true := rfl

/-- The code of a template and styles ends its lines. -/
theorem atLineStart_inner {r : Setting} (hr : Sense.verbatim.Reads r.reader) (d : Document) :
    (Inner.ofDocument r d).code.atLineStart = true := by
  have htemplate : (Inner.withTemplate {} r d).code.atLineStart = true := by
    unfold Inner.withTemplate
    split
    · rfl
    · exact Generate.stays_template (r := r.withTemplate _ d.fragment) hr d.fragment {} rfl
  have hstyles : ((Inner.withTemplate {} r d).withStyles r d).code.atLineStart = true := by
    unfold Inner.withStyles
    split
    · exact htemplate
    · exact Code.atLineStart_append htemplate (Generate.stays_styles d.styles _ (atLineStart_continueFrom _))
  unfold Inner.ofDocument
  split
  · rfl
  · exact hstyles

/-! ## The statements -/

/-- The statements that are added to the scripts of a document begin lines just when the script text before the first of them that does
not take care of it ends a line. This holds for a reader of scripts that finds names where they stand. -/
theorem statements_begin_lines (hreader : Sense.verbatim.Reads reader) (o : Options) (filename : Option String) (d : Document) :
    let inner := (Draft.ofDocument reader o filename d).inner.code
    let scene := sceneOf reader o filename d
    (Draft.ofDocument reader o filename d).whole = scene.write inner ∧ piecesOf scene.sections = scene.pieces ∧
      (BeginLines inner { code := inner.continueFrom } scene.sections ↔ Text.EndsLine scene.joint) :=
  ⟨whole_ofDocument reader o filename d, Scene.piecesOf_sections _,
    Scene.beginLines_sections _ (atLineStart_inner hreader d) (atLineStart_continueFrom _)⟩

/-- A document whose script exports an object, and whose template reads a name. -/
def exportedObject : String := "<script lang=\"ts\">\nexport default \x7b\x7d\n</script>\n<template>\x7b\x7b a \x7d\x7d</template>"

/-- A reader of the scripts in this document. -/
def exportedObjectReader : Script.Reader := Sense.only ["\nexport default \x7b\x7d\n", "( a );\n"] Script.Module.read

/-- The statements that are added to that script begin lines. -/
theorem statements_begin_lines_exportedObject : Sense.verbatim.Reads exportedObjectReader ∧
    let d := (Document.split exportedObject).1
    let inner := (Draft.ofDocument exportedObjectReader default none d).inner.code
    BeginLines inner { code := inner.continueFrom } (sceneOf exportedObjectReader default none d).sections := by
  have hreads : Sense.verbatim.Reads exportedObjectReader := Sense.reads_only (by decide +kernel)
  have hjoint : Text.EndsLine (sceneOf exportedObjectReader default none (Document.split exportedObject).1).joint := by decide +kernel
  obtain ⟨-, -, hiff⟩ := statements_begin_lines hreads default none (Document.split exportedObject).1
  exact ⟨hreads, hiff.2 hjoint⟩

/-- A document whose script exports nothing, and ends without a line feed. -/
def unendedLine : String := "<script>const a = 1</script>"

/-- The declaration of its component does not begin a line. -/
theorem not_begin_lines_unendedLine :
    let d := (Document.split unendedLine).1
    let inner := (Draft.ofDocument Script.Module.read default none d).inner.code
    ¬BeginLines inner { code := inner.continueFrom } (sceneOf Script.Module.read default none d).sections := by
  have hinner : (Draft.ofDocument Script.Module.read default none (Document.split unendedLine).1).inner.code.atLineStart = true := by
    decide +kernel
  have hjoint : ¬Text.EndsLine (sceneOf Script.Module.read default none (Document.split unendedLine).1).joint := by decide +kernel
  exact fun h => hjoint ((Scene.beginLines_sections _ hinner (atLineStart_continueFrom _)).1 h)

end TypedFile

end TypedSfc
