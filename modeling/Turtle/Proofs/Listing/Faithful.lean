import Turtle.Proofs.Grammar.Sound
import Turtle.Proofs.Listing.Rows

/-!
The listing of a program determines it.

All names in a program that was parsed are names from its source, so its lines can
be read back from the listing. Lines tell statements but for their line numbers,
and these are not listed. Hence two programs have the same listing exactly if they
differ in nothing but line numbers.
-/

namespace Turtle

/-! ### Names of a program come from its tokens -/

theorem Spells.wellFormed_lexeme {l : Lexeme} {o : Operand} (h : Spells l o) (hl : l.WellFormed) :
    o.lexeme.WellFormed := by
  cases h with
  | number hread hlower hupper => exact Numeral.isNumeral_ofInt64 _
  | var name => exact hl
  | word name => exact hl

theorem Infix.wellFormed_of_mem_postorder {e : Infix} (h : ∀ t ∈ e.tokens, t.lexeme.WellFormed) :
    ∀ i ∈ e.tree.postorder, i.lexeme.WellFormed := by
  induction e with
  | atom a =>
      exact List.forall_mem_singleton.2
        (a.spelled.wellFormed_lexeme (h a.token List.mem_cons_self))
  | paren opening e closing ih =>
      exact ih fun t ht => h t (List.mem_cons_of_mem _ (List.mem_append_left _ ht))
  | binary l op line r ihl ihr =>
      obtain ⟨hl, hr⟩ := List.forall_mem_append.1 h
      obtain ⟨-, hr⟩ := List.forall_mem_cons.1 hr
      rw [Infix.tree, Tree.postorder, List.forall_mem_append, List.forall_mem_append]
      exact ⟨ihl hl, ihr hr, List.forall_mem_singleton.2 trivial⟩

namespace Listing

theorem legible_of_infix {e : Infix} (h : ∀ t ∈ e.tokens, t.lexeme.WellFormed) (depth : Nat) :
    (valueRow depth e.expr).heading.Legible := by
  have hitems := Infix.wellFormed_of_mem_postorder h
  cases e with
  | atom a => exact List.forall_mem_singleton.2 (hitems _ List.mem_cons_self)
  | paren | binary => exact List.forall_mem_map.2 hitems

theorem legible_of_value {v : Value} (h : ∀ t ∈ v.tokens, t.lexeme.WellFormed) (depth : Nat) :
    (valueRow depth v.expr).heading.Legible := by
  cases v with
  | argument a => exact legible_of_infix h depth
  | word line name =>
      exact List.forall_mem_singleton.2 (h ⟨.word name, line⟩ List.mem_cons_self)

mutual

theorem legible_of_phrase (depth : Nat) (p : Phrase) (h : ∀ t ∈ p.tokens, t.lexeme.WellFormed) :
    ∀ r ∈ outline depth p.statement, r.heading.Legible := by
  match p with
  | .call line name arguments =>
      rw [Phrase.tokens, List.forall_mem_cons] at h
      obtain ⟨hname, harguments⟩ := h
      rw [Phrase.statement, outline, List.forall_mem_cons, List.map_map]
      refine ⟨List.forall_mem_singleton.2 hname, ?_⟩
      intro r hr
      obtain ⟨a, ha, rfl⟩ := List.mem_map.1 hr
      exact legible_of_infix (fun t ht => harguments t (List.mem_flatMap.2 ⟨a, ha, ht⟩)) _
  | .assign line nameLine name value =>
      rw [Phrase.tokens, List.forall_mem_cons, List.forall_mem_cons] at h
      obtain ⟨-, hname, hvalue⟩ := h
      rw [Phrase.statement, outline, List.forall_mem_cons, List.forall_mem_singleton]
      exact ⟨List.forall_mem_singleton.2 hname, legible_of_value hvalue _⟩
  | .loop line count opening body closing =>
      rw [Phrase.tokens, List.forall_mem_cons, List.forall_mem_append, List.forall_mem_cons,
        List.forall_mem_append] at h
      obtain ⟨-, hcount, -, hbody, -⟩ := h
      rw [Phrase.statement, outline, List.forall_mem_cons, List.forall_mem_cons,
        List.forall_mem_cons]
      exact ⟨List.forall_mem_nil _, legible_of_value hcount _, List.forall_mem_nil _,
        legible_of_body (depth + 1) body hbody⟩

theorem legible_of_body (depth : Nat) (ps : List Phrase)
    (h : ∀ t ∈ bodyTokens ps, t.lexeme.WellFormed) :
    ∀ r ∈ bodyOutline depth (bodyStatements ps), r.heading.Legible := by
  match ps with
  | [] => exact List.forall_mem_nil _
  | p :: ps =>
      rw [bodyTokens, List.forall_mem_append] at h
      rw [bodyStatements, bodyOutline, List.forall_mem_append]
      exact ⟨legible_of_phrase depth p h.1, legible_of_body depth ps h.2⟩

end

theorem legible_of_clause (depth : Nat) (c : Clause) (h : ∀ t ∈ c.tokens, t.lexeme.WellFormed) :
    ∀ r ∈ outline depth c.statement, r.heading.Legible := by
  cases c with
  | phrase p => exact legible_of_phrase depth p h
  | procedure line nameLine name parameters body closing =>
      rw [Clause.tokens, List.forall_mem_cons, List.forall_mem_cons, List.forall_mem_append,
        List.forall_mem_append] at h
      obtain ⟨-, hname, hparameters, hbody, -⟩ := h
      rw [Clause.statement, outline, List.forall_mem_cons]
      refine ⟨?_, legible_of_body (depth + 1) body hbody⟩
      rw [List.forall_mem_map] at hparameters
      exact List.forall_mem_cons.2 ⟨hname, by rwa [List.map_map, List.forall_mem_map]⟩

/-- What is listed of a program that was parsed can be read back. -/
theorem legible_of_parseSource {source : Text} {ss : List Statement}
    (h : parseSource source = .ok ss) : ∀ r ∈ programOutline ss, r.heading.Legible := by
  obtain ⟨l, d, hlex, htokens, rfl⟩ := exists_derivation_of_parseSource h
  have hwellFormed : ∀ t ∈ Derivation.tokens d, t.lexeme.WellFormed := by
    rw [htokens]
    exact List.forall_mem_map.1 (wellFormed_of_lex hlex)
  rw [programOutline, List.forall_mem_cons]
  refine ⟨List.forall_mem_nil _, ?_⟩
  intro r hr
  rw [bodyOutline_eq_flatMap] at hr
  obtain ⟨s, hs, hmem⟩ := List.mem_flatMap.1 hr
  obtain ⟨c, hc, rfl⟩ := List.mem_map.1 hs
  exact legible_of_clause 1 c (fun t ht => hwellFormed t (List.mem_flatMap.2 ⟨c, hc, ht⟩)) r hmem

/-! ### Line numbers are not listed -/

mutual

theorem outline_relabel (φ : Nat → Nat) (depth : Nat) (s : Statement) :
    outline depth (s.relabel φ) = outline depth s := by
  match s with
  | .procedure line name parameters body =>
      rw [Statement.relabel, outline, outline, bodyOutline_relabel φ (depth + 1) body]
  | .call line name arguments =>
      rw [Statement.relabel, outline, outline, List.length_map, List.map_map]
      rfl
  | .assign line name value => rfl
  | .loop line count body =>
      rw [Statement.relabel, outline, outline, bodyOutline_relabel φ (depth + 1) body]
      rfl

theorem bodyOutline_relabel (φ : Nat → Nat) (depth : Nat) (ss : List Statement) :
    bodyOutline depth (relabelBody φ ss) = bodyOutline depth ss := by
  match ss with
  | [] => rfl
  | s :: ss =>
      rw [relabelBody, bodyOutline, bodyOutline, outline_relabel φ depth s,
        bodyOutline_relabel φ depth ss]

end

theorem program_relabel (φ : Nat → Nat) (ss : List Statement) :
    program (ss.map (Statement.relabel φ)) = program ss := by
  rw [program_eq_outline, program_eq_outline, programOutline, programOutline, List.length_map,
    ← relabelBody_eq_map, bodyOutline_relabel]

/-! ### Programs with the same listing -/

/-- Two sources that can be parsed have the same listing exactly if the same
statements stand in them, line numbers aside. -/
theorem program_faithful {source source' : Text} {ss ss' : List Statement}
    (h : parseSource source = .ok ss) (h' : parseSource source' = .ok ss') :
    program ss = program ss' ↔
      ss.map (Statement.relabel noLine) = ss'.map (Statement.relabel noLine) := by
  constructor
  · intro hlisting
    rw [program_eq_outline, program_eq_outline] at hlisting
    have hrows := rows_unique (legible_of_parseSource h) (legible_of_parseSource h') hlisting
    have hnone : EndsBefore 1 [] := fun _ hr => nomatch hr
    have hbody : bodyOutline 1 ss ++ [] = bodyOutline 1 ss' ++ [] := by
      rw [List.append_nil, List.append_nil]
      exact (List.cons.inj hrows).2
    exact (bodyOutline_unique hnone hnone hbody).1
  · intro hsame
    rw [← program_relabel noLine ss, hsame, program_relabel]

/-- A difference, twice with other gaps. Where the minus sign belongs to the number,
there are two arguments, and another listing. -/
theorem program_faithful_minus :
    let source := ascii "to f :n fd :n-5 end f -5"
    let respaced := ascii "to f :n\n  fd :n - 5\nend ; f\nf\n\n-5"
    let two := ascii "to f :n fd :n -5 end f -5"
    let items : List Item := [.operand (.var (ascii "n")), .operand (.number 5), .operator .sub]
    let ss : List Statement := [
      .procedure 1 (ascii "f") [ascii "n"] [.call 1 (ascii "fd") [⟨1, .sequence items⟩]],
      .call 1 (ascii "f") [⟨1, .single (.number (-5))⟩]]
    let ss' : List Statement := [
      .procedure 1 (ascii "f") [ascii "n"] [.call 2 (ascii "fd") [⟨2, .sequence items⟩]],
      .call 4 (ascii "f") [⟨6, .single (.number (-5))⟩]]
    let ss₂ : List Statement := [
      .procedure 1 (ascii "f") [ascii "n"] [.call 1 (ascii "fd")
        [⟨1, .single (.var (ascii "n"))⟩, ⟨1, .single (.number (-5))⟩]],
      .call 1 (ascii "f") [⟨1, .single (.number (-5))⟩]]
    (parseSource source = .ok ss ∧ parseSource respaced = .ok ss' ∧ parseSource two = .ok ss₂) ∧
      program ss = program ss' ∧ program ss ≠ program ss₂ := by
  intro source respaced two items ss ss' ss₂
  have hsource : parseSource source = .ok ss := by
    have hlex : lex source = .ok ⟨[⟨.keyword .to, 1⟩, ⟨.identifier (ascii "f"), 1⟩,
        ⟨.var (ascii "n"), 1⟩, ⟨.identifier (ascii "fd"), 1⟩, ⟨.var (ascii "n"), 1⟩,
        ⟨.operator .sub, 1⟩, ⟨.number (ascii "5"), 1⟩, ⟨.keyword .close, 1⟩,
        ⟨.identifier (ascii "f"), 1⟩, ⟨.number (ascii "-5"), 1⟩], 1⟩ := by
      decide +kernel
    rw [parseSource, hlex]
    rfl
  have hrespaced : parseSource respaced = .ok ss' := by
    have hlex : lex respaced = .ok ⟨[⟨.keyword .to, 1⟩, ⟨.identifier (ascii "f"), 1⟩,
        ⟨.var (ascii "n"), 1⟩, ⟨.identifier (ascii "fd"), 2⟩, ⟨.var (ascii "n"), 2⟩,
        ⟨.operator .sub, 2⟩, ⟨.number (ascii "5"), 2⟩, ⟨.keyword .close, 3⟩,
        ⟨.identifier (ascii "f"), 4⟩, ⟨.number (ascii "-5"), 6⟩], 6⟩ := by
      decide +kernel
    rw [parseSource, hlex]
    rfl
  have htwo : parseSource two = .ok ss₂ := by
    have hlex : lex two = .ok ⟨[⟨.keyword .to, 1⟩, ⟨.identifier (ascii "f"), 1⟩,
        ⟨.var (ascii "n"), 1⟩, ⟨.identifier (ascii "fd"), 1⟩, ⟨.var (ascii "n"), 1⟩,
        ⟨.number (ascii "-5"), 1⟩, ⟨.keyword .close, 1⟩,
        ⟨.identifier (ascii "f"), 1⟩, ⟨.number (ascii "-5"), 1⟩], 1⟩ := by
      decide +kernel
    rw [parseSource, hlex]
    rfl
  refine ⟨⟨hsource, hrespaced, htwo⟩, ?_, ?_⟩
  · exact (program_faithful hsource hrespaced).2 rfl
  · intro hlisting
    have hsame := (program_faithful hsource htwo).1 hlisting
    cases hsame

end Listing

end Turtle
