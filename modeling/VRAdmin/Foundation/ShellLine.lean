import VRAdmin.Foundation.CString

/-! # The simple commands of a shell line

A line is read byte by byte under the quotations, substitutions and groups that are
open. It is cut at every unquoted `;`, newline, `|`, `&`, `(` and `)` that is not part of a
redirection or a substitution; what a substitution runs is read as commands of its own,
the text between backquotes as a line of its own. Quotes, backslashes and comments are
removed; the target of a redirection and the digit in front of its operator are no words
of the command.

Not read are here-documents, `$'`, `$[`, `((`, a parenthesis inside a word or one that
closes nothing, quotes, escapes, expansions, parentheses and braces inside `${` or
`$((`, and lines that leave something open. Such a line has a command that is not known.
-/

namespace Foundation

namespace ShellLine

/-- A part of a word in progress, or what ends it. -/
inductive Part
  | lit (b : UInt8)
  | quote
  | subst
  | blank
  | redirect
deriving DecidableEq

inductive Token
  | part (p : Part)
  | sep
  | openSubst
  | closeSubst
  | backquoted (text : Bytes)
  | unread
deriving DecidableEq

/-! ## Reading a byte -/

/-- What is open; of a backquoted text, whether it stands in double quotes, and its
bytes so far. -/
inductive Quoting
  | single
  | double
  | subst
  | group
  | braces
  | arith
  | comment
  | backquotes (quoted : Bool) (text : Bytes)
deriving DecidableEq

/-- The byte before, where the next one can belong to it. -/
inductive Last
  | other
  | dollar
  | dollarParen
  | dollarBrace
  | paren
  | less
  | greater
  | closing
deriving DecidableEq

structure Lexer where
  ctx : List Quoting
  inWord : Bool
  last : Last
  escape : Bool
deriving DecidableEq

/-- Where a line starts, and where a word in progress goes on. -/
def Lexer.start : Lexer := ⟨[], false, .other, false⟩
def Lexer.within : Lexer := ⟨[], true, .other, false⟩

/-- A word goes on behind a byte that leaves these quotations open. -/
def Lexer.goesOn (ctx : List Quoting) (last : Last) (tokens : List Token) :
    Option (Lexer × List Token) :=
  some (⟨ctx, true, last, false⟩, tokens)

/-- No word is in progress behind such a byte. -/
def Lexer.ends (ctx : List Quoting) (last : Last) (tokens : List Token) :
    Option (Lexer × List Token) :=
  some (⟨ctx, false, last, false⟩, tokens)

/-- `$` and what it starts with the byte behind it. -/
def Lexer.readDollar (ctx : List Quoting) (b : UInt8) : Option (Lexer × List Token) :=
  if b = 40 then Lexer.ends (.subst :: ctx) .dollarParen [.openSubst]
  else if b = 123 then Lexer.goesOn (.braces :: ctx) .dollarBrace [.part (.lit b)]
  else if b = 36 then Lexer.goesOn ctx .other [.part (.lit b)]
  else none

/-- What a byte outside quotes stands for by itself. -/
inductive Meaning
  | literal
  | backslash
  | single
  | double
  | backquote
  | dollar
  | hash
  | opening
  | closing
  | blank
  | separator
  | less
  | greater
deriving DecidableEq

def meaning (b : UInt8) : Meaning :=
  if b = 92 then .backslash
  else if b = 39 then .single
  else if b = 34 then .double
  else if b = 96 then .backquote
  else if b = 36 then .dollar
  else if b = 35 then .hash
  else if b = 40 then .opening
  else if b = 41 then .closing
  else if b = 32 ∨ b = 9 then .blank
  else if b = 59 ∨ b = 10 ∨ b = 124 ∨ b = 38 then .separator
  else if b = 60 then .less
  else if b = 62 then .greater
  else .literal

/-- A parenthesis that closes a substitution or a group. -/
def Lexer.close : List Quoting → Option (Lexer × List Token)
  | .subst :: outer => Lexer.goesOn outer .other [.closeSubst]
  | .group :: outer => Lexer.ends outer .other [.sep]
  | _ => none

/-- A byte outside quotes that does not belong to the one before. -/
def Lexer.readPlain (l : Lexer) (b : UInt8) : Option (Lexer × List Token) :=
  match meaning b with
  | .literal => Lexer.goesOn l.ctx .other [.part (.lit b)]
  | .backslash => some ({ l with escape := true }, [])
  | .single => Lexer.goesOn (.single :: l.ctx) .other [.part .quote]
  | .double => Lexer.goesOn (.double :: l.ctx) .other [.part .quote]
  | .backquote => Lexer.goesOn (.backquotes false [] :: l.ctx) .other []
  | .dollar => Lexer.goesOn l.ctx .dollar [.part (.lit b)]
  | .hash =>
      if l.inWord then Lexer.goesOn l.ctx .other [.part (.lit b)]
      else Lexer.ends (.comment :: l.ctx) .other []
  | .opening => if l.inWord then none else Lexer.ends (.group :: l.ctx) .paren [.sep]
  | .closing => Lexer.close l.ctx
  | .blank => Lexer.ends l.ctx .other [.part .blank]
  | .separator => Lexer.ends l.ctx .other [.sep]
  | .less => Lexer.ends l.ctx .less [.part .redirect]
  | .greater => Lexer.ends l.ctx .greater [.part .redirect]

/-- A byte outside quotes. -/
def Lexer.readUnquoted (l : Lexer) (b : UInt8) : Option (Lexer × List Token) :=
  match l.last with
  | .dollar =>
      if b = 40 ∨ b = 123 ∨ b = 36 ∨ b = 39 ∨ b = 91 then Lexer.readDollar l.ctx b
      else l.readPlain b
  | .dollarParen =>
      -- `$((` runs nothing: it is read as a substitution without a command
      if b = 40 then Lexer.goesOn (.arith :: l.ctx.tail) .other [] else l.readPlain b
  | .paren => if b = 40 then none else l.readPlain b
  | .less =>
      if b = 38 ∨ b = 62 then Lexer.ends l.ctx .other []
      else if b = 60 then none
      else l.readPlain b
  | .greater =>
      if b = 38 ∨ b = 62 ∨ b = 124 then Lexer.ends l.ctx .other [] else l.readPlain b
  | _ => l.readPlain b

/-- A byte between double quotes. -/
def Lexer.readDouble (l : Lexer) (outer : List Quoting) (b : UInt8) :
    Option (Lexer × List Token) :=
  if l.last = .dollar ∧ (b = 40 ∨ b = 123 ∨ b = 36 ∨ b = 91) then Lexer.readDollar l.ctx b
  else if b = 92 then some ({ l with escape := true }, [])
  else if b = 34 then Lexer.goesOn outer .other []
  else if b = 96 then Lexer.goesOn (.backquotes true [] :: l.ctx) .other []
  else if b = 36 then Lexer.goesOn l.ctx .dollar [.part (.lit b)]
  else Lexer.goesOn l.ctx .other [.part (.lit b)]

/-- Bytes that stand for themselves inside `${` and `$((`. -/
def isInert (b : UInt8) : Bool := b ∉ [92, 39, 34, 96, 36, 40, 41, 123, 125, 10]

/-- A byte that may follow `${`: of a name, or one of `#`, `?`, `@`, `*`, `!`, `-`. -/
def isParameter (b : UInt8) : Bool :=
  isDigit b || (65 ≤ b && b ≤ 90) || (97 ≤ b && b ≤ 122) || b ∈ [95, 35, 63, 64, 42, 33, 45]

def Lexer.readBraces (l : Lexer) (outer : List Quoting) (b : UInt8) :
    Option (Lexer × List Token) :=
  if l.last = .dollarBrace ∧ isParameter b = false then none
  else if b = 125 then Lexer.goesOn outer .other [.part (.lit b)]
  else if isInert b then Lexer.goesOn l.ctx .other [.part (.lit b)]
  else none

def Lexer.readArith (l : Lexer) (outer : List Quoting) (b : UInt8) :
    Option (Lexer × List Token) :=
  if l.last = .closing then
    if b = 41 then Lexer.goesOn outer .other [.closeSubst] else none
  else if b = 41 then Lexer.goesOn l.ctx .closing []
  else if isInert b then Lexer.goesOn l.ctx .other []
  else none

/-- The bytes that a backslash protects between double quotes, and in a backquoted text. -/
def isProtected (quoted : Bool) (b : UInt8) : Bool :=
  b = 36 || b = 96 || b = 92 || quoted && b = 34

/-- What the two bytes of an escape leave of it. -/
def unescaped (quoted : Bool) (b : UInt8) : Bytes :=
  if b = 10 then [] else if isProtected quoted b then [b] else [92, b]

/-- The byte behind a backslash. Outside quotes an escaped newline vanishes, and what
is before it and behind it belongs together. -/
def Lexer.readEscaped (l : Lexer) (b : UInt8) : Option (Lexer × List Token) :=
  match l.ctx with
  | .backquotes quoted text :: outer =>
      Lexer.goesOn (.backquotes quoted (text ++ unescaped quoted b) :: outer) .other []
  | .double :: _ =>
      if b = 10 then some ({ l with escape := false }, [])
      else Lexer.goesOn l.ctx .other ((unescaped true b).map fun c => .part (.lit c))
  | _ =>
      if b = 10 then some ({ l with escape := false }, [])
      else Lexer.goesOn l.ctx .other [.part .quote, .part (.lit b)]

def Lexer.read (l : Lexer) (b : UInt8) : Option (Lexer × List Token) :=
  if l.escape then l.readEscaped b
  else
    match l.ctx with
    | .single :: outer =>
        if b = 39 then Lexer.goesOn outer .other []
        else Lexer.goesOn l.ctx .other [.part (.lit b)]
    | .double :: outer => l.readDouble outer b
    | .braces :: outer => l.readBraces outer b
    | .arith :: outer => l.readArith outer b
    | .comment :: outer =>
        if b = 10 then Lexer.ends outer .other [.sep] else some (l, [])
    | .backquotes quoted text :: outer =>
        if b = 92 then some ({ l with escape := true }, [])
        else if b = 96 then Lexer.goesOn outer .other [.backquoted text]
        else Lexer.goesOn (.backquotes quoted (text ++ [b]) :: outer) .other []
    | _ => l.readUnquoted b

/-- A line may end here. -/
def Lexer.closed (l : Lexer) : Bool := !l.escape && (l.ctx == [] || l.ctx == [.comment])

/-- The tokens of a line; what cannot be read ends them. -/
def lex : Lexer → Bytes → List Token
  | l, [] => if l.closed then [] else [.unread]
  | l, b :: rest =>
      match l.read b with
      | none => [.unread]
      | some (next, tokens) => tokens ++ lex next rest

/-! ## Commands -/

/-- A line read from some token on: the command that is in progress there, the
enclosing commands after their substitutions, and all that start later. -/
structure Split where
  current : List Part
  outer : List (List Part)
  later : List (List Part)
deriving DecidableEq

def split : List Token → Split
  | [] => ⟨[], [], []⟩
  | .part p :: rest =>
      let r := split rest
      ⟨p :: r.current, r.outer, r.later⟩
  | .sep :: rest =>
      let r := split rest
      ⟨[], r.outer, r.current :: r.later⟩
  | .openSubst :: rest =>
      let r := split rest
      ⟨.subst :: r.outer.headD [], r.outer.tail, r.current :: r.later⟩
  | .closeSubst :: rest =>
      let r := split rest
      ⟨[], r.current :: r.outer, r.later⟩
  | .backquoted _ :: rest =>
      let r := split rest
      ⟨.subst :: r.current, r.outer, r.later⟩
  | .unread :: rest => split rest

@[simp] theorem split_parts (parts : List Part) (rest : List Token) :
    split (parts.map .part ++ rest) =
      ⟨parts ++ (split rest).current, (split rest).outer, (split rest).later⟩ := by
  induction parts with
  | nil => rfl
  | cons p parts ih => rw [List.map_cons, List.cons_append, split, ih, List.cons_append]

/-! ## Words -/

/-- A byte of a word, or what a command substitution puts there. -/
inductive Letter
  | byte (b : UInt8)
  | output
deriving DecidableEq

abbrev Word := List Letter

def wordOf (text : Bytes) : Word := text.map .byte

def Part.letters : Part → Word
  | .lit b => [.byte b]
  | .subst => [.output]
  | _ => []

/-- A word in progress is one digit without quotes. -/
def isDescriptor : List Part → Bool
  | [.lit b] => isDigit b
  | _ => false

/-- The word in progress, unless it is the target of a redirection. -/
def finished (target : Bool) (cur : List Part) : List Word :=
  if target ∨ cur = [] then [] else [cur.flatMap Part.letters]

def wordsFrom (target : Bool) (cur : List Part) : List Part → List Word
  | [] => finished target cur
  | .blank :: rest => finished target cur ++ wordsFrom (target && cur == []) [] rest
  | .redirect :: rest =>
      (if isDescriptor cur then [] else finished target cur) ++ wordsFrom true [] rest
  | p :: rest => wordsFrom target (cur ++ [p]) rest

def words (parts : List Part) : List Word := wordsFrom false [] parts

/-- What a word in progress still gets. -/
def wordRest : List Part → Word
  | [] => []
  | .blank :: _ => []
  | .redirect :: _ => []
  | p :: rest => p.letters ++ wordRest rest

theorem isDescriptor_long {cur : List Part} (h : 2 ≤ cur.length) : isDescriptor cur = false := by
  match cur, h with
  | p :: _ :: _, _ => cases p <;> rfl

theorem finished_long {cur : List Part} (h : 2 ≤ cur.length) :
    finished false cur = [cur.flatMap Part.letters] := by
  have hne : cur ≠ [] := List.ne_nil_of_length_pos (by omega)
  simp [finished, hne]

/-- A word in progress that is no descriptor becomes a word of the command. -/
theorem wordsFrom_long {cur : List Part} (h : 2 ≤ cur.length) (parts : List Part) :
    ∃ more, wordsFrom false cur parts = (cur.flatMap Part.letters ++ wordRest parts) :: more := by
  induction parts generalizing cur with
  | nil => exact ⟨[], by simp [wordsFrom, finished_long h, wordRest]⟩
  | cons p rest ih =>
      have hgrow : 2 ≤ (cur ++ [p]).length := by
        rw [List.length_append]
        omega
      have hnext (hp : wordsFrom false cur (p :: rest) = wordsFrom false (cur ++ [p]) rest)
          (hr : wordRest (p :: rest) = p.letters ++ wordRest rest) :
          ∃ more, wordsFrom false cur (p :: rest) =
            (cur.flatMap Part.letters ++ wordRest (p :: rest)) :: more := by
        obtain ⟨more, hmore⟩ := ih hgrow
        exact ⟨more, by rw [hp, hmore, hr]; simp⟩
      cases p with
      | lit b => exact hnext rfl rfl
      | quote => exact hnext rfl rfl
      | subst => exact hnext rfl rfl
      | blank => exact ⟨_, by simp [wordsFrom, finished_long h, wordRest]; rfl⟩
      | redirect =>
          exact ⟨_, by simp [wordsFrom, finished_long h, isDescriptor_long h, wordRest]; rfl⟩

theorem wordsFrom_lits (cur : List Part) (text : Bytes) (parts : List Part) :
    wordsFrom false cur (text.map .lit ++ parts) = wordsFrom false (cur ++ text.map .lit) parts := by
  induction text generalizing cur with
  | nil => simp
  | cons b text ih =>
      show wordsFrom false (cur ++ [.lit b]) (text.map .lit ++ parts) = _
      rw [ih]
      simp

@[simp] theorem letters_lits (text : Bytes) :
    (text.map Part.lit).flatMap Part.letters = wordOf text := by
  induction text with
  | nil => rfl
  | cons b text ih =>
      rw [List.map_cons, List.flatMap_cons, ih]
      rfl

/-! ## Lines -/

inductive Command
  | words (ws : List Word)
  | unread
deriving DecidableEq

/-- The command that is in progress where a line starts, and those behind it. -/
structure Reading where
  current : List Part
  behind : List Command
deriving DecidableEq

/-- What a token adds that is read on its own. -/
def Token.inner (text : Bytes → List Command) : Token → List Command
  | .backquoted t => text t
  | .unread => [.unread]
  | _ => []

/-- The commands of a line whose backquoted texts nest at most so deep. -/
def readWithin : Nat → Lexer → Bytes → Reading
  | 0, _, _ => ⟨[], [.unread]⟩
  | depth + 1, l, line =>
      let tokens := lex l line
      let r := split tokens
      let text (t : Bytes) :=
        let inner := readWithin depth .start t
        .words (words inner.current) :: inner.behind
      ⟨r.current, (r.outer ++ r.later).map (.words ∘ words) ++ tokens.flatMap (Token.inner text)⟩

/-- No backquoted text is as long as the line it stands in. -/
def readFrom (l : Lexer) (line : Bytes) : Reading := readWithin (line.length + 1) l line

/-- The commands of a line, the one it starts with first; a command without a word
runs nothing. -/
def simpleCommands (line : Bytes) : List Command :=
  let r := readFrom .start line
  (.words (words r.current) :: r.behind).filter (· ≠ .words [])

/-- What a word that ends where the line starts still gets from the line. -/
def joinedText (line : Bytes) : Word := wordRest (readFrom .within line).current

/-- The commands of a line behind the one that is in progress where it starts. -/
def laterCommands (line : Bytes) : List Command :=
  (readFrom .within line).behind.filter (· ≠ .words [])

theorem inner_parts (text : Bytes → List Command) (parts : List Part) :
    (parts.map Token.part).flatMap (Token.inner text) = [] := by
  rw [List.flatMap_map, List.flatMap_eq_nil_iff]
  intro p _
  rfl

/-! ## The depth -/

def Quoting.textLength : Quoting → Nat
  | .backquotes _ text => text.length
  | _ => 0

@[simp] def Token.textLength : Token → Nat
  | .backquoted text => text.length
  | _ => 0

def contextLength (ctx : List Quoting) : Nat := (ctx.map Quoting.textLength).sum

@[simp] theorem contextLength_cons (q : Quoting) (ctx : List Quoting) :
    contextLength (q :: ctx) = q.textLength + contextLength ctx := by
  rw [contextLength, List.map_cons, List.sum_cons, contextLength]

theorem contextLength_tail (ctx : List Quoting) : contextLength ctx.tail ≤ contextLength ctx := by
  cases ctx with
  | nil => exact Nat.le_refl _
  | cons q ctx =>
      rw [contextLength_cons]
      exact Nat.le_add_left _ _

/-- The bytes of all texts that are open, with those of an escape. -/
def Lexer.textLength (l : Lexer) : Nat := contextLength l.ctx + if l.escape then 1 else 0

/-- A byte gives at most one byte to the texts that are open, and ends none longer
than these. -/
def Bounded (n : Nat) (r : Option (Lexer × List Token)) : Prop :=
  ∀ next tokens, r = some (next, tokens) →
    next.textLength ≤ n + 1 ∧ ∀ t ∈ tokens, t.textLength ≤ n

theorem bounded_none (n : Nat) : Bounded n none := by
  intro next tokens h
  cases h

theorem bounded_some {n : Nat} {l : Lexer} {tokens : List Token} (hl : l.textLength ≤ n + 1)
    (ht : ∀ t ∈ tokens, t.textLength ≤ n) : Bounded n (some (l, tokens)) := by
  intro next tokens' h
  obtain ⟨rfl, rfl⟩ := Prod.mk.inj (Option.some.inj h)
  exact ⟨hl, ht⟩

theorem bounded_goesOn {n : Nat} {ctx : List Quoting} (last : Last) {tokens : List Token}
    (hctx : contextLength ctx ≤ n + 1) (ht : ∀ t ∈ tokens, t.textLength ≤ n) :
    Bounded n (Lexer.goesOn ctx last tokens) := bounded_some hctx ht

theorem bounded_ends {n : Nat} {ctx : List Quoting} (last : Last) {tokens : List Token}
    (hctx : contextLength ctx ≤ n + 1) (ht : ∀ t ∈ tokens, t.textLength ≤ n) :
    Bounded n (Lexer.ends ctx last tokens) := bounded_some hctx ht

theorem bounded_escape {n : Nat} {l : Lexer} (h : contextLength l.ctx ≤ n) :
    Bounded n (some ({ l with escape := true }, [])) :=
  bounded_some (Nat.succ_le_succ h) (by simp)

theorem readDollar_bounded {n : Nat} {ctx : List Quoting} (h : contextLength ctx ≤ n) (b : UInt8) :
    Bounded n (Lexer.readDollar ctx b) := by
  have hpush (q : Quoting) (hq : q.textLength = 0) : contextLength (q :: ctx) ≤ n + 1 := by
    rw [contextLength_cons]
    omega
  unfold Lexer.readDollar
  split_ifs
  · exact bounded_ends _ (hpush .subst rfl) (by simp)
  · exact bounded_goesOn _ (hpush .braces rfl) (by simp)
  · exact bounded_goesOn _ (Nat.le_succ_of_le h) (by simp)
  · exact bounded_none n

theorem close_bounded {n : Nat} {ctx : List Quoting} (h : contextLength ctx ≤ n) :
    Bounded n (Lexer.close ctx) := by
  have hpop (q : Quoting) (outer : List Quoting) (hctx : ctx = q :: outer) :
      contextLength outer ≤ n + 1 := by
    rw [hctx, contextLength_cons] at h
    omega
  unfold Lexer.close
  split
  · exact bounded_goesOn _ (hpop _ _ rfl) (by simp)
  · exact bounded_ends _ (hpop _ _ rfl) (by simp)
  · exact bounded_none n

theorem readPlain_bounded {n : Nat} {l : Lexer} (h : contextLength l.ctx ≤ n) (b : UInt8) :
    Bounded n (l.readPlain b) := by
  have hsame := Nat.le_succ_of_le h
  have hpush (q : Quoting) (hq : q.textLength = 0) : contextLength (q :: l.ctx) ≤ n + 1 := by
    rw [contextLength_cons]
    omega
  unfold Lexer.readPlain
  cases meaning b with
  | literal => exact bounded_goesOn _ hsame (by simp)
  | backslash => exact bounded_escape h
  | single => exact bounded_goesOn _ (hpush .single rfl) (by simp)
  | double => exact bounded_goesOn _ (hpush .double rfl) (by simp)
  | backquote => exact bounded_goesOn _ (hpush (.backquotes false []) rfl) (by simp)
  | dollar => exact bounded_goesOn _ hsame (by simp)
  | hash =>
      cases l.inWord with
      | true => exact bounded_goesOn _ hsame (by simp)
      | false => exact bounded_ends _ (hpush .comment rfl) (by simp)
  | opening =>
      cases l.inWord with
      | true => exact bounded_none n
      | false => exact bounded_ends _ (hpush .group rfl) (by simp)
  | closing => exact close_bounded h
  | blank => exact bounded_ends _ hsame (by simp)
  | separator => exact bounded_ends _ hsame (by simp)
  | less => exact bounded_ends _ hsame (by simp)
  | greater => exact bounded_ends _ hsame (by simp)

theorem readUnquoted_bounded {n : Nat} {l : Lexer} (h : contextLength l.ctx ≤ n) (b : UInt8) :
    Bounded n (l.readUnquoted b) := by
  have hsame := Nat.le_succ_of_le h
  have hplain := readPlain_bounded h b
  unfold Lexer.readUnquoted
  cases l.last with
  | dollar =>
      dsimp only
      split
      · exact readDollar_bounded h b
      · exact hplain
  | dollarParen =>
      dsimp only
      split
      · have harith : contextLength (.arith :: l.ctx.tail) ≤ n + 1 := by
          have htail := contextLength_tail l.ctx
          rw [contextLength_cons]
          show 0 + _ ≤ _
          omega
        exact bounded_goesOn _ harith (by simp)
      · exact hplain
  | paren =>
      dsimp only
      split
      · exact bounded_none n
      · exact hplain
  | less =>
      dsimp only
      split
      · exact bounded_ends _ hsame (by simp)
      · split
        · exact bounded_none n
        · exact hplain
  | greater =>
      dsimp only
      split
      · exact bounded_ends _ hsame (by simp)
      · exact hplain
  | other => exact hplain
  | dollarBrace => exact hplain
  | closing => exact hplain

theorem readDouble_bounded {n : Nat} {l : Lexer} {outer : List Quoting}
    (hctx : l.ctx = .double :: outer) (h : contextLength l.ctx ≤ n) (b : UInt8) :
    Bounded n (l.readDouble outer b) := by
  have hsame := Nat.le_succ_of_le h
  have houter : contextLength outer ≤ n + 1 := by
    rw [hctx, contextLength_cons] at h
    omega
  have htext : contextLength (.backquotes true [] :: l.ctx) ≤ n + 1 := by
    rw [contextLength_cons]
    show 0 + _ ≤ _
    omega
  unfold Lexer.readDouble
  split
  · exact readDollar_bounded h b
  · split
    · exact bounded_escape h
    · split
      · exact bounded_goesOn _ houter (by simp)
      · split
        · exact bounded_goesOn _ htext (by simp)
        · split
          · exact bounded_goesOn _ hsame (by simp)
          · exact bounded_goesOn _ hsame (by simp)

theorem readBraces_bounded {n : Nat} {l : Lexer} {outer : List Quoting}
    (h : contextLength l.ctx ≤ n) (houter : contextLength outer ≤ n) (b : UInt8) :
    Bounded n (l.readBraces outer b) := by
  unfold Lexer.readBraces
  split
  · exact bounded_none n
  · split
    · exact bounded_goesOn _ (Nat.le_succ_of_le houter) (by simp)
    · split
      · exact bounded_goesOn _ (Nat.le_succ_of_le h) (by simp)
      · exact bounded_none n

theorem readArith_bounded {n : Nat} {l : Lexer} {outer : List Quoting}
    (h : contextLength l.ctx ≤ n) (houter : contextLength outer ≤ n) (b : UInt8) :
    Bounded n (l.readArith outer b) := by
  unfold Lexer.readArith
  split
  · split
    · exact bounded_goesOn _ (Nat.le_succ_of_le houter) (by simp)
    · exact bounded_none n
  · split
    · exact bounded_goesOn _ (Nat.le_succ_of_le h) (by simp)
    · split
      · exact bounded_goesOn _ (Nat.le_succ_of_le h) (by simp)
      · exact bounded_none n

theorem unescaped_length (quoted : Bool) (b : UInt8) : (unescaped quoted b).length ≤ 2 := by
  unfold unescaped
  split_ifs
  · exact Nat.zero_le 2
  · exact Nat.le_succ 1
  · exact Nat.le_refl 2

/-- The two bytes of an escape were counted when they were read. -/
theorem readEscaped_bounded {n : Nat} {l : Lexer} (h : contextLength l.ctx + 1 ≤ n) (b : UInt8) :
    Bounded n (l.readEscaped b) := by
  have hdropped : ({ l with escape := false } : Lexer).textLength ≤ n + 1 :=
    Nat.le_succ_of_le (Nat.le_of_succ_le h)
  have hsame : contextLength l.ctx ≤ n + 1 := by omega
  unfold Lexer.readEscaped
  split
  · next quoted text outer hctx =>
      have htext : contextLength (.backquotes quoted (text ++ unescaped quoted b) :: outer) ≤
          n + 1 := by
        have hlen := unescaped_length quoted b
        rw [hctx] at h
        simp only [contextLength_cons, Quoting.textLength, List.length_append] at h ⊢
        omega
      exact bounded_goesOn _ htext (by simp)
  · split
    · exact bounded_some hdropped (by simp)
    · exact bounded_goesOn _ hsame (by simp)
  · split
    · exact bounded_some hdropped (by simp)
    · exact bounded_goesOn _ hsame (by simp)

theorem read_bounded (l : Lexer) (b : UInt8) : Bounded l.textLength (l.read b) := by
  unfold Lexer.read
  cases hescape : l.escape with
  | true => exact readEscaped_bounded (by simp [Lexer.textLength, hescape]) b
  | false =>
      have hlen : contextLength l.ctx = l.textLength := by simp [Lexer.textLength, hescape]
      have h := hlen.le
      have hpop (q : Quoting) (outer : List Quoting) (hctx : l.ctx = q :: outer) :
          contextLength outer ≤ l.textLength := by
        rw [← hlen, hctx, contextLength_cons]
        exact Nat.le_add_left _ _
      rw [if_neg Bool.false_ne_true]
      split
      · next outer hctx =>
          split
          · exact bounded_goesOn _ (Nat.le_succ_of_le (hpop _ _ hctx)) (by simp)
          · exact bounded_goesOn _ (Nat.le_succ_of_le h) (by simp)
      · next outer hctx => exact readDouble_bounded hctx h b
      · next outer hctx => exact readBraces_bounded h (hpop _ _ hctx) b
      · next outer hctx => exact readArith_bounded h (hpop _ _ hctx) b
      · next outer hctx =>
          split
          · exact bounded_ends _ (Nat.le_succ_of_le (hpop _ _ hctx)) (by simp)
          · exact bounded_some (Nat.le_succ _) (by simp)
      · next quoted text outer hctx =>
          have htext : text.length + contextLength outer = l.textLength := by
            rw [← hlen, hctx, contextLength_cons]
            rfl
          split
          · exact bounded_escape h
          · split
            · exact bounded_goesOn _ (by omega) (by simp; omega)
            · have hgrown : contextLength (.backquotes quoted (text ++ [b]) :: outer) ≤
                  l.textLength + 1 := by
                simp only [contextLength_cons, Quoting.textLength, List.length_append,
                  List.length_singleton]
                omega
              exact bounded_goesOn _ hgrown (by simp)
      · exact readUnquoted_bounded h b

/-- A backquoted text is shorter than the line that ends it. -/
theorem lex_bounded {l : Lexer} {line text : Bytes} (h : .backquoted text ∈ lex l line) :
    text.length < l.textLength + line.length := by
  induction line generalizing l with
  | nil =>
      rw [lex] at h
      split at h
      · cases h
      · cases List.mem_singleton.mp h
  | cons b rest ih =>
      rw [lex] at h
      rw [List.length_cons]
      cases hread : l.read b with
      | none =>
          rw [hread] at h
          cases List.mem_singleton.mp h
      | some r =>
          obtain ⟨next, tokens⟩ := r
          obtain ⟨hnext, htokens⟩ := read_bounded l b next tokens hread
          rw [hread] at h
          rcases List.mem_append.mp h with hmem | hmem
          · have hle := htokens _ hmem
            dsimp only [Token.textLength] at hle
            omega
          · have hrest := ih hmem
            omega

/-- Any depth from the length of the line on reads the same. -/
theorem readWithin_enough {depth more : Nat} {l : Lexer} {line : Bytes}
    (h : l.textLength + line.length < depth) (hmore : depth ≤ more) :
    readWithin more l line = readWithin depth l line := by
  induction depth generalizing more l line with
  | zero => omega
  | succ depth ih =>
      cases more with
      | zero => omega
      | succ more =>
          have hinner (t : Token) (ht : t ∈ lex l line) :
              t.inner (fun text =>
                let inner := readWithin more .start text
                .words (words inner.current) :: inner.behind) =
              t.inner (fun text =>
                let inner := readWithin depth .start text
                .words (words inner.current) :: inner.behind) := by
            cases t with
            | backquoted text =>
                have hshort := lex_bounded ht
                have htext : Lexer.start.textLength + text.length < depth := by
                  show 0 + text.length < depth
                  omega
                dsimp only [Token.inner]
                rw [ih htext (Nat.le_of_succ_le_succ hmore)]
            | part p => rfl
            | sep => rfl
            | openSubst => rfl
            | closeSubst => rfl
            | unread => rfl
          have hflat := List.flatMap_congr hinner
          simp only [readWithin, hflat]

/-! ## Lines that start with ordinary words -/

/-- Bytes without a meaning of their own outside quotes. -/
def isOrdinary (b : UInt8) : Bool := meaning b = .literal

theorem read_ordinary {b : UInt8} (h : isOrdinary b = true) (inWord : Bool) :
    Lexer.read ⟨[], inWord, .other, false⟩ b = some (.within, [.part (.lit b)]) := by
  have hmeaning : meaning b = .literal := of_decide_eq_true h
  show Lexer.readPlain ⟨[], inWord, .other, false⟩ b = _
  rw [Lexer.readPlain, hmeaning]
  rfl

theorem lex_within {text : Bytes} (h : ∀ b ∈ text, isOrdinary b = true) (rest : Bytes) :
    lex .within (text ++ rest) = (text.map .lit).map .part ++ lex .within rest := by
  induction text with
  | nil => rfl
  | cons b text ih =>
      rw [List.cons_append, lex, Lexer.within, read_ordinary (h b List.mem_cons_self)]
      exact congrArg (Token.part (.lit b) :: ·) (ih fun c hc => h c (List.mem_cons_of_mem b hc))

theorem lex_start {text : Bytes} (h : ∀ b ∈ text, isOrdinary b = true) (hne : text ≠ [])
    (rest : Bytes) :
    lex .start (text ++ rest) = (text.map .lit).map .part ++ lex .within rest := by
  cases text with
  | nil => exact (hne rfl).elim
  | cons b text =>
      rw [List.cons_append, lex, Lexer.start, read_ordinary (h b List.mem_cons_self)]
      exact congrArg (Token.part (.lit b) :: ·)
        (lex_within (fun c hc => h c (List.mem_cons_of_mem b hc)) rest)

theorem lex_blank (rest : Bytes) : lex .within (32 :: rest) = .part .blank :: lex .start rest := rfl

/-- Words with one blank behind each, and the text of a last one. -/
def lineStart (front : List Bytes) (last : Bytes) : Bytes := front.flatMap (· ++ [32]) ++ last

def startParts (front : List Bytes) (last : Bytes) : List Part :=
  front.flatMap (fun text => text.map .lit ++ [.blank]) ++ last.map .lit

/-- No single byte, which could be the descriptor of a redirection. -/
structure OrdinaryStart (front : List Bytes) (last : Bytes) : Prop where
  ordinary : ∀ text ∈ last :: front, ∀ b ∈ text, isOrdinary b = true
  long : ∀ text ∈ last :: front, 2 ≤ text.length

theorem OrdinaryStart.nonempty {front : List Bytes} {last : Bytes} (h : OrdinaryStart front last)
    {text : Bytes} (ht : text ∈ last :: front) : text ≠ [] := by
  have hlong := h.long text ht
  exact List.ne_nil_of_length_pos (by omega)

theorem OrdinaryStart.tail {text : Bytes} {front : List Bytes} {last : Bytes}
    (h : OrdinaryStart (text :: front) last) : OrdinaryStart front last := by
  have hsub := ((List.sublist_cons_self text front).cons_cons last).subset
  exact ⟨fun t ht => h.ordinary t (hsub ht), fun t ht => h.long t (hsub ht)⟩

theorem lex_lineStart {front : List Bytes} {last : Bytes} (h : OrdinaryStart front last)
    (rest : Bytes) :
    lex .start (lineStart front last ++ rest) =
      (startParts front last).map .part ++ lex .within rest := by
  induction front with
  | nil => exact lex_start (h.ordinary last List.mem_cons_self) (h.nonempty List.mem_cons_self) rest
  | cons text front ih =>
      have htext : text ∈ last :: text :: front := List.mem_cons_of_mem last List.mem_cons_self
      have hline : lineStart (text :: front) last ++ rest =
          text ++ 32 :: (lineStart front last ++ rest) := by
        simp [lineStart]
      rw [hline, lex_start (h.ordinary text htext) (h.nonempty htext), lex_blank, ih h.tail]
      simp [startParts]

theorem wordsFrom_text (text : Bytes) (parts : List Part) :
    wordsFrom false [] (text.map .lit ++ parts) = wordsFrom false (text.map .lit) parts :=
  wordsFrom_lits [] text parts

theorem words_startParts {front : List Bytes} {last : Bytes} (h : OrdinaryStart front last)
    (parts : List Part) :
    ∃ more, words (startParts front last ++ parts) =
      front.map wordOf ++ (wordOf last ++ wordRest parts) :: more := by
  have hlits {text : Bytes} (ht : 2 ≤ text.length) : 2 ≤ (text.map Part.lit).length := by
    rwa [List.length_map]
  induction front with
  | nil =>
      have hlast := hlits (h.long last List.mem_cons_self)
      obtain ⟨more, hmore⟩ := wordsFrom_long hlast parts
      rw [letters_lits] at hmore
      exact ⟨more, (wordsFrom_text last parts).trans hmore⟩
  | cons text front ih =>
      have htext := hlits (h.long text (List.mem_cons_of_mem last List.mem_cons_self))
      obtain ⟨more, hmore⟩ := ih h.tail
      have hstart : startParts (text :: front) last ++ parts =
          text.map .lit ++ .blank :: (startParts front last ++ parts) := by
        simp [startParts]
      refine ⟨more, ?_⟩
      rw [words, hstart, wordsFrom_text, wordsFrom, finished_long htext, letters_lits]
      exact congrArg (wordOf text :: ·) hmore

/-- The first command of such a line has these words, the last one joined with what
the line adds to it; the later commands are those of the rest of the line. -/
theorem simpleCommands_lineStart {front : List Bytes} {last : Bytes}
    (h : OrdinaryStart front last) (rest : Bytes) :
    ∃ more, simpleCommands (lineStart front last ++ rest) =
      .words (front.map wordOf ++ (wordOf last ++ joinedText rest) :: more) ::
        laterCommands rest := by
  have hread : readFrom .start (lineStart front last ++ rest) =
      ⟨startParts front last ++ (readFrom .within rest).current,
        (readFrom .within rest).behind⟩ := by
    have hdepth : Lexer.within.textLength + rest.length < rest.length + 1 := by
      show 0 + rest.length < rest.length + 1
      omega
    have hlen : rest.length + 1 ≤ (lineStart front last ++ rest).length + 1 := by
      rw [List.length_append]
      omega
    rw [readFrom, readFrom, ← readWithin_enough hdepth hlen]
    simp only [readWithin, lex_lineStart h, split_parts, List.flatMap_append, inner_parts,
      List.nil_append]
  obtain ⟨more, hmore⟩ := words_startParts h (readFrom .within rest).current
  refine ⟨more, ?_⟩
  have hne : Command.words (front.map wordOf ++ (wordOf last ++ joinedText rest) :: more) ≠
      .words [] := by
    simp
  unfold simpleCommands
  rw [hread]
  dsimp only
  rw [hmore]
  exact List.filter_cons_of_pos (decide_eq_true hne)

end ShellLine

end Foundation
