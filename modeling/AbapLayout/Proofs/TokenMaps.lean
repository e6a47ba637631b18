import AbapLayout.Proofs.Splitting

/-!
# Maps of tokens

Cutting tokens into statements looks at their roles, at the signs they are and at the words they
spell, and at nothing else.  A map of tokens that keeps these gives the mapped statements
(`Unfinished.statements_map`); where tokens are refused, the line at fault is the mapped one.
-/

namespace AbapLayout

/-- A map of tokens that keeps their roles, the words they spell, and texts without letters. -/
structure Token.KeepsWords (f : Token → Token) : Prop where
  role : ∀ t, (f t).role = t.role
  upper : ∀ t, (f t).upper = t.upper
  text_eq_iff : ∀ t {s : Text}, s.all (fun d => !d.isAlpha) = true → ((f t).text = s ↔ t.text = s)

def Opening.map (f : Token → Token) : Opening → Opening
  | .none => .none
  | .shared words colon => .shared (words.map f) (f colon)
  | .stray colon => .stray (f colon)

def RawStatement.map (f : Token → Token) (r : RawStatement) : RawStatement :=
  { r with
    opening := r.opening.map f
    body := r.body.map f
    pragmas := r.pragmas.map f }

def Unfinished.map (f : Token → Token) (u : Unfinished) : Unfinished where
  pending := u.pending.map f
  pragmas := u.pragmas.map f
  chain := u.chain.map fun chain => (chain.1.map f, f chain.2)
  depth := u.depth

def Rejection.mapLine (g : Nat → Nat) : Rejection → Rejection
  | .noObject filename => .noObject filename
  | .noStatements => .noStatements
  | .lexical fault line => .lexical fault (g line)
  | .unterminated line => .unterminated (g line)

variable {f : Token → Token}

namespace Token.KeepsWords

/-- Whether some texts have no letters. -/
def letterless (texts : List String) : Bool :=
  texts.all fun s => s.toList.all fun c => !c.isAlpha

theorem isOneOf
    (hf : KeepsWords f) (t : Token) (texts : List String) (h : letterless texts = true) :
    (f t).isOneOf texts = t.isOneOf texts := by
  rw [Bool.eq_iff_iff, Token.isOneOf_iff, Token.isOneOf_iff]
  rw [letterless, List.all_eq_true] at h
  exact exists_congr fun s => and_congr_right fun hs => hf.text_eq_iff t (h s hs)

theorem classify (hf : KeepsWords f) (ts : List Token) :
    Kind.classify (ts.map f) = Kind.classify ts := by
  have hwords : Kind.tellingWords (ts.map f) = Kind.tellingWords ts := by
    simp [Kind.tellingWords, List.filter_map, Function.comp_def, hf.role, hf.upper]
  simp [Kind.classify, hwords, List.any_map, Function.comp_def, Token.isComment, hf.role]

end Token.KeepsWords

theorem Opening.tokens_map (opening : Opening) :
    (opening.map f).tokens = opening.tokens.map f := by
  cases opening <;> simp [map, tokens]

theorem RawStatement.map_ofTokens
    (hf : Token.KeepsWords f) (opening : Opening) (body pragmas : List Token) :
    (ofTokens opening body pragmas).map f =
      ofTokens (opening.map f) (body.map f) (pragmas.map f) := by
  simp [map, ofTokens, Opening.tokens_map, ← List.map_append, hf.classify]

namespace Unfinished

theorem opening_map (u : Unfinished) : (u.map f).opening = u.opening.map f := by
  unfold opening map
  cases u.chain <;> rfl

theorem pushCode_map (hf : Token.KeepsWords f) (u : Unfinished) (t : Token) :
    (u.map f).pushCode (f t) =
      ((u.pushCode t).1.map (RawStatement.map f), (u.pushCode t).2.map f) := by
  have hdepth : (u.map f).depthAfter (f t) = u.depthAfter t := by
    simp only [depthAfter, hf.isOneOf t ["(", "["] (by decide),
      hf.isOneOf t [")", "]"] (by decide)]
    rfl
  have hperiod : ((f t).text = ['.']) = (t.text = ['.']) :=
    propext (hf.text_eq_iff t (by decide))
  have hchain : (u.map f).chain.isSome = u.chain.isSome := by simp [map]
  have hpending : (u.map f).pending ++ [f t] = (u.pending ++ [t]).map f := by simp [map]
  unfold pushCode
  simp only [hdepth, hperiod, hchain, hpending, hf.role, opening_map]
  split
  · split <;> simp [RawStatement.map_ofTokens hf, map]
  · simp [map]

/-- The machine takes a mapped token as it takes the token. -/
theorem push_map (hf : Token.KeepsWords f) (u : Unfinished) (t : Token) :
    (u.map f).push (f t) = ((u.push t).1.map (RawStatement.map f), (u.push t).2.map f) := by
  unfold push
  rw [hf.role]
  cases t.role with
  | comment =>
      dsimp only
      have hpending : (u.map f).pending.isEmpty = u.pending.isEmpty := by simp [map]
      rw [hpending]
      split
      · simp [RawStatement.ofComment, RawStatement.map, Opening.map]
      · simp [map]
  | pragma => simp [map]
  | colon =>
      have hopens : ((u.map f).chain.isNone = true ∧ (u.map f).depth = 0) ↔
          (u.chain.isNone = true ∧ u.depth = 0) := by simp [map]
      simp only [hopens]
      split
      · simp [map]
      · exact pushCode_map hf u t
  | word | punctuation | literal | arrow => exact pushCode_map hf u t

theorem leftover?_map (u : Unfinished) : (u.map f).leftover? = u.leftover?.map f := by
  unfold leftover? map
  rw [List.head?_map, List.head?_map]
  cases u.pending.head? <;> cases u.pragmas.head? <;> cases u.chain <;> rfl

/-- Mapped tokens are cut into mapped statements, or refused for the mapped line. -/
theorem statements_map
    (hf : Token.KeepsWords f) {g : Nat → Nat}
    (hline : ∀ t, (f t).span.startLine = g t.span.startLine) (u : Unfinished) (ts : List Token) :
    (u.map f).statements (ts.map f) =
      ((u.statements ts).map (List.map (RawStatement.map f))).mapError (Rejection.mapLine g) := by
  induction ts generalizing u with
  | nil =>
      rw [List.map_nil, statements, statements, leftover?_map]
      cases u.leftover? with
      | none => rfl
      | some t =>
          refine congrArg Except.error ?_
          simp [Rejection.mapLine, hline]
  | cons t ts ih =>
      rw [List.map_cons, statements, statements, push_map hf]
      cases hpush : u.push t with
      | mk completed v =>
          have hrest := ih v
          cases completed with
          | none => exact hrest
          | some s =>
              simp only [Option.map_some, hrest]
              cases v.statements ts <;> rfl

end Unfinished
end AbapLayout
