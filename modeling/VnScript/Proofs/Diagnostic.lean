import VnScript.Diagnostic
import VnScript.Proofs.Grammar.Failure
import VnScript.Proofs.Text.Lines
import VnScript.Tree.Equality

namespace VnScript

/-- What a failure to read a program is about: a character that no token starts with or that
opens a literal without end, a token of the text, or the end of the text. The failure is where
this is, and the character is what stands there. -/
inductive ParseError.PointsAt (source : String) : ParseError → Option Char → Prop
  | character {e : LexError} {front rest : List Char} {c : Char}
      (source_eq : source.toList = front ++ c :: rest) (blank : Text.isBlank c = false)
      (about : e.IsAbout c) (place : e.place = Place.behind front) :
    PointsAt source (.lexical e) (some c)
  | token {e : SyntaxError} {t : Token} {before gap text after : List Char} {c : Char}
      (has : (Scan.ofString source).Has t)
      (lies : t.Lies source.toList before gap (c :: text) after)
      (kind : t.kind ≠ .endOfFile) (about : e.IsAbout t) :
    PointsAt source (.grammar e) (some c)
  | ending {e : SyntaxError} {t : Token} {before gap : List Char}
      (has : (Scan.ofString source).Has t) (lies : t.Lies source.toList before gap [] [])
      (kind : t.kind = .endOfFile) (about : e.IsAbout t) : PointsAt source (.grammar e) none

theorem Token.Lies.place_eq {t : Token} {source before gap text after : List Char}
    (h : t.Lies source before gap text after) :
    t.start.toPlace = Place.behind (before ++ gap) := by
  have hline := h.line_eq
  have hcolumn := h.column_eq
  generalize t.start = p at hline hcolumn
  obtain ⟨⟨line, column⟩, offset⟩ := p
  obtain rfl : line = _ := hline
  obtain rfl : column = _ := hcolumn
  rfl

theorem Spelling.exists_head {kind : TokenKind} {lexeme text : List Char}
    (h : Spelling kind lexeme text) : ∃ c cs, text = c :: cs ∧ Text.isBlank c = false := by
  obtain ⟨c, cs, htext, hc, -⟩ := Reading.first_of_spelling h (show Breaks [] from nofun)
  exact ⟨c, cs, htext, hc⟩

namespace ParseError

variable {source : String} {e : ParseError} {first : Option Char}

/-- Where the failure is the text has been read up to the character, and that is no blank. -/
theorem PointsAt.split (h : e.PointsAt source first) : ∃ front rest,
    source.toList = front ++ rest ∧ e.place = Place.behind front ∧ rest.head? = first ∧
      ∀ c ∈ first, Text.isBlank c = false := by
  cases h with
  | character source_eq blank about place =>
    refine ⟨_, _, source_eq, place, rfl, ?_⟩
    rintro _ ⟨⟩
    exact blank
  | @token e t before gap text after c has lies kind about =>
    refine ⟨before ++ gap, c :: text ++ after, ?_, about.place_eq.trans lies.place_eq, rfl, ?_⟩
    · rw [lies.source_eq, List.append_assoc]
    · obtain hspelling | ⟨hkind, -⟩ := lies.spelling
      · obtain ⟨d, cs, hd, hblank⟩ := hspelling.exists_head
        obtain ⟨rfl, -⟩ := List.cons.inj hd
        rintro _ ⟨⟩
        exact hblank
      · exact absurd hkind kind
  | @ending e t before gap has lies kind about =>
    refine ⟨before ++ gap, [], ?_, about.place_eq.trans lies.place_eq, rfl, nofun⟩
    have hsource := lies.source_eq
    simpa using hsource

end ParseError

namespace Diagnostic

end Diagnostic

end VnScript
