import Lowering.Proofs.Scanning
import Lowering.Proofs.TextLines
import Lowering.Proofs.TypeNames

/-!
# Lowering — scanning along a line

On one line the scan does what the reader of a line does. Where the scan has its cursor in the text,
with the rest of the line and its comment ahead, the reader has the rest of the line without the
comment, up to the line feed. Both refuse for the same cause, which is no broken contract, or both
give the same answer and are still at one place (`Scan.Follows`). So the scan of an instruction
halts only with a refusal that the reader agrees with (`Scan.statement_follows`).
-/

namespace Lowering.Scan

open Text
open Reader (EndsLine isGap)

variable {α β γ δ : Type} {text s : List Char} {f : Routine}

/-! ## Places on a line

A place within a line has two ends ahead of it: that of the line without its comment, which is where
the reader's text ends, and that of the comment. None of the line feeds of the text is between them,
so the line number does not change while the cursor is on the line. -/

/-- A place on a line: the text before it, what is left of the line, and its comment. -/
structure Spot where
  before : List Char
  left : List Char
  comment : List Char

namespace Spot

variable {q q' : Spot}

/-- The cursor of the scan. -/
def place (q : Spot) (f : Routine) : Place :=
  Scan.place q.before f

/-- The cursor of the reader of the line, which ends where `s` begins. -/
def cursor (q : Spot) (s : List Char) (types : TypeTable) : Cursor :=
  ⟨q.left ++ s.head?.toList, types⟩

/-- The text ahead, from the end of the line on. -/
def behind (q : Spot) (s : List Char) : List Char :=
  q.comment ++ s

/-- The place is on a line of the text, and `s` is the text from the end of the line on. -/
structure On (q : Spot) (text s : List Char) : Prop where
  split : Split text q.before (q.left ++ q.behind s)
  ends : EndsLine s.head?
  plain : ∀ c ∈ q.left, c ≠ '\n' ∧ c ≠ ';'
  comment_feed : '\n' ∉ q.comment
  comment_head : ∀ c, q.comment.head? = some c → c = ';'

/-- The second place is behind the first on its line, or is the same. -/
structure Leads (q q' : Spot) : Prop where
  left : q'.left <:+ q.left
  comment : q'.comment <:+ q.comment

theorem Leads.refl (q : Spot) : q.Leads q :=
  ⟨List.suffix_rfl, List.suffix_rfl⟩

theorem Leads.trans {q q' q'' : Spot} (h : q.Leads q') (h' : q'.Leads q'') : q.Leads q'' :=
  ⟨h'.left.trans h.left, h'.comment.trans h.comment⟩

/-- All places on a line have its number. So an error is reported for the same line wherever on the
line it is found. -/
theorem On.count_eq (h : q.On text s) (h' : q'.On text s) :
    q'.before.count '\n' = q.before.count '\n' := by
  -- no line feed is left on the line, so all of those before `s` are before the place
  have hnone {q : Spot} (h : q.On text s) : q.left.count '\n' + q.comment.count '\n' = 0 := by
    rw [List.count_eq_zero.2 fun hmem => (h.plain _ hmem).1 rfl,
      List.count_eq_zero.2 h.comment_feed]
  have hcount {q : Spot} (h : q.On text s) :
      text.count '\n' = q.before.count '\n' + s.count '\n' := by
    have hline := hnone h
    rw [h.split.eq, behind, List.count_append, List.count_append, List.count_append]
    omega
  have h₁ := hcount h
  have h₂ := hcount h'
  omega

/-- Where less is left of the line, the cursor has moved on. The loops of the scan may not come
round without moving on, and the repetitions of the reader not without taking something, so this is
what lets them go on together. -/
theorem On.pos_lt (h : q.On text s) (h' : q'.On text s) (hq : q.Leads q')
    (hshort : q'.left.length < q.left.length) : byteSize q.before < byteSize q'.before := by
  obtain ⟨taken, htaken⟩ := hq.left
  obtain ⟨skipped, hskipped⟩ := hq.comment
  -- both places split the same text, and a character of `taken` has a size
  have hne : taken ≠ [] := by
    rintro rfl
    rw [← htaken, List.nil_append] at hshort
    exact Nat.lt_irrefl _ hshort
  have hpos := byteSize_pos hne
  have hsize := h.split.byteSize_eq
  rw [h'.split.byteSize_eq, behind, behind, ← htaken, ← hskipped] at hsize
  simp only [byteSize_append] at hsize
  omega

/-- The place behind a part of what is left. -/
def past (q : Spot) (mid left : List Char) : Spot :=
  ⟨q.before ++ mid, left, q.comment⟩

section Past

variable {mid left : List Char} (hleft : q.left = mid ++ left)
include hleft

/-- Behind a part of what is left, the place is still on the line. -/
theorem On.past (h : q.On text s) : (q.past mid left).On text s where
  split := by
    have hsplit := h.split
    rw [hleft, List.append_assoc] at hsplit
    exact hsplit.move
  ends := h.ends
  plain := fun c hc => h.plain c (hleft ▸ List.mem_append_right mid hc)
  comment_feed := h.comment_feed
  comment_head := h.comment_head

theorem leads_past : q.Leads (q.past mid left) :=
  ⟨⟨mid, hleft.symm⟩, List.suffix_rfl⟩

end Past

theorem past_past (q : Spot) (a b c d : List Char) : (q.past a b).past c d = q.past (a ++ c) d := by
  rw [past, past, past, List.append_assoc]

/-- What is left of a line is followed by a comment, by a line feed or by nothing. -/
theorem On.head?_behind (h : q.On text s) {c : Char} (hc : (q.behind s).head? = some c) :
    c = '\n' ∨ c = ';' := by
  rw [behind] at hc
  cases hcomment : q.comment with
  | nil =>
    rw [hcomment, List.nil_append] at hc
    exact .inl (Reader.eq_feed h.ends rfl hc)
  | cons d t =>
    rw [hcomment] at hc
    have hhead := h.comment_head d
    rw [hcomment] at hhead
    exact .inr (Option.some.inj hc ▸ hhead rfl)

/-- For the reader of the line, it is followed by a line feed or by nothing. -/
theorem On.head?_end (h : q.On text s) {c : Char} (hc : s.head?.toList.head? = some c) :
    c = '\n' ∨ c = ';' :=
  .inl (Reader.eq_feed h.ends Option.head?_toList hc)

/-- A character that is neither is on the line. -/
theorem left_eq_cons {t : List Char} {c : Char}
    (ht : ∀ d, t.head? = some d → d = '\n' ∨ d = ';') (hc : c ≠ '\n' ∧ c ≠ ';')
    (hhead : (q.left ++ t).head? = some c) : ∃ left, q.left = c :: left := by
  cases hleft : q.left with
  | nil =>
    rw [hleft, List.nil_append] at hhead
    exact ((ht c hhead).elim hc.1 hc.2).elim
  | cons d left =>
    rw [hleft] at hhead
    obtain rfl : d = c := Option.some.inj hhead
    exact ⟨left, rfl⟩

/-- Whether a character comes next is told from what is left of the line, unless it is one that ends
it. -/
theorem head?_eq_iff {t : List Char} {c : Char} (ht : ∀ d, t.head? = some d → d = '\n' ∨ d = ';')
    (hc : c ≠ '\n' ∧ c ≠ ';') : (q.left ++ t).head? = some c ↔ q.left.head? = some c := by
  constructor
  · intro h
    obtain ⟨left, hleft⟩ := left_eq_cons ht hc h
    rw [hleft]
    rfl
  · intro h
    rw [List.head?_append, h]
    rfl

end Spot

variable {q : Spot}

/-! ## The scan and the reader

The relation between the two. Both begin at one place and end at one place, and between them nothing
is known of each other, so that the scan of a sequence follows the reader of the sequence if each
part does. -/

/-- At one place the scan does what the reader does: it refuses for the same cause, at the line of the
place and without a broken contract, or it gives the same answer and goes to the same place. -/
inductive FollowsAt (x : Scan α) (y : Reader α) (text s : List Char) (q : Spot) (f : Routine) : Prop
  | refuses (cause : Refusal) (hcause : ∀ b, cause ≠ .fault b)
      (hscan : x (q.place f) = .error (.refused ⟨1 + q.before.count '\n', cause⟩))
      (hread : y (q.cursor s f.types) = .error cause)
  | answers (a : α) (q' : Spot) (types : TypeTable) (hon : q'.On text s) (hq : q.Leads q')
      (hscan : x (q.place f) = .ok (a, q'.place { f with types }))
      (hread : y (q.cursor s f.types) = .ok (a, q'.cursor s types))

/-- The scan follows the reader from every place on a line. -/
def Follows (text : List Char) (x : Scan α) (y : Reader α) : Prop :=
  ∀ ⦃s : List Char⦄ ⦃q : Spot⦄ (f : Routine), q.On text s → FollowsAt x y text s q f

/-- A sequence goes on where both have come to the same place, with answers that may differ. The
scan has what it needs in its state or in the text, where the reader has been given it as a
result. -/
theorem FollowsAt.bind_answers {x : Scan γ} {y : Reader δ} {g : γ → Scan α} {g' : δ → Reader α}
    {a : γ} {b : δ} {q' : Spot} {types : TypeTable} (h : q.On text s) (hon : q'.On text s)
    (hq : q.Leads q') (hscan : x (q.place f) = .ok (a, q'.place { f with types }))
    (hread : y (q.cursor s f.types) = .ok (b, q'.cursor s types))
    (hg : FollowsAt (g a) (g' b) text s q' { f with types }) :
    FollowsAt (x >>= g) (y >>= g') text s q f := by
  cases hg with
  | refuses cause hcause hscan' hread' =>
    -- the number of the line in the error is that of `q`, since both are on one line
    refine .refuses cause hcause ?_ ?_
    · rw [bind_of_ok hscan, hscan', h.count_eq hon]
    · rw [Reader.bind_apply, hread]
      exact hread'
  | answers a' q'' types' hon' hq' hscan' hread' =>
    refine .answers a' q'' types' hon' (hq.trans hq') ?_ ?_
    · rw [bind_of_ok hscan, hscan']
    · rw [Reader.bind_apply, hread]
      exact hread'

/-- What only looks ahead leaves the place as it is. -/
theorem FollowsAt.bind_looks {x : Scan γ} {y : Reader δ} {g : γ → Scan α} {g' : δ → Reader α}
    {a : γ} {b : δ} (h : q.On text s) (hscan : x (q.place f) = .ok (a, q.place f))
    (hread : y (q.cursor s f.types) = .ok (b, q.cursor s f.types))
    (hg : FollowsAt (g a) (g' b) text s q f) : FollowsAt (x >>= g) (y >>= g') text s q f :=
  .bind_answers h h (.refl q) hscan hread hg

/-- A sequence goes on behind what its first part has taken of the line. -/
theorem FollowsAt.bind_past {x : Scan γ} {y : Reader δ} {g : γ → Scan α} {g' : δ → Reader α} {a : γ}
    {b : δ} {mid left : List Char} (h : q.On text s) (hleft : q.left = mid ++ left)
    (hscan : x (q.place f) = .ok (a, (q.past mid left).place f))
    (hread : y (q.cursor s f.types) = .ok (b, (q.past mid left).cursor s f.types))
    (hg : FollowsAt (g a) (g' b) text s (q.past mid left) f) :
    FollowsAt (x >>= g) (y >>= g') text s q f :=
  .bind_answers h (h.past hleft) (Spot.leads_past hleft) hscan hread hg

namespace Follows

/-- A sequence follows a sequence if each part follows its part. The second part is asked for on
every answer of the first. -/
theorem bind {x : Scan α} {y : Reader α} {g : α → Scan β} {g' : α → Reader β}
    (hx : Follows text x y) (hg : ∀ a, Follows text (g a) (g' a)) :
    Follows text (x >>= g) (y >>= g') := by
  intro s q f h
  cases hx f h with
  | refuses cause hcause hscan hread =>
    exact .refuses cause hcause (bind_of_error hscan) (Reader.bind_refused hread)
  | answers a q' types hon hq hscan hread =>
    exact .bind_answers h hon hq hscan hread (hg a _ hon)

theorem pure (a : α) : Follows text (pure a : Scan α) (pure a : Reader α) :=
  fun _ q f h => .answers a q f.types h (.refl q) rfl rfl

theorem refuse {cause : Refusal} (hcause : ∀ b, cause ≠ .fault b) :
    Follows text (refuse cause : Scan α) (throw cause : Reader α) :=
  fun _ _ _ _ => .refuses cause hcause rfl rfl

theorem map {x : Scan α} {y : Reader α} (hx : Follows text x y) (g : α → β) :
    Follows text (g <$> x) (g <$> y) := by
  rw [← bind_pure_comp, ← bind_pure_comp]
  exact hx.bind fun a => .pure (g a)

theorem ite {p : Prop} [Decidable p] {x x' : Scan α} {y y' : Reader α} (hx : Follows text x y)
    (hx' : Follows text x' y') : Follows text (if p then x else x') (if p then y else y') := by
  split
  · exact hx
  · exact hx'

/-- A contract that is kept is followed by what it promises. -/
theorem keep {x : Except Fault α} {a : α} (h : x = .ok a) :
    Follows text (keep x) (Reader.keep x) := by
  rw [h]
  exact .pure a

end Follows

/-! ## Looking ahead

The scan looks at the whole rest of the text and the reader at the rest of the line. They see the
same as long as they look for something that is neither a line feed nor the beginning of a
comment. -/

/-- The next character as the scan sees it and as the reader does. -/
theorem current_at (h : q.On text s) :
    current text (q.place f) = .ok ((q.left ++ q.behind s).head?, q.place f) :=
  current_apply h.split

theorem isPrefixOf_singleton (c : Char) (cs : List Char) :
    [c].isPrefixOf cs = (cs.head? == some c) := by
  cases cs with
  | nil => rfl
  | cons d cs => simp [List.isPrefixOf, Bool.beq_comm (a := c)]

/-- A question for the next character gets the same answer as the question for a word of it. -/
theorem current_is (h : q.On text s) {c : Char} (hc : c ≠ '\n' ∧ c ≠ ';') :
    ((q.left ++ q.behind s).head? == some c) = (q.left.head? == some c) ∧
      Reader.looksAt (String.ofList [c]) (q.cursor s f.types) =
        .ok (q.left.head? == some c, q.cursor s f.types) := by
  have heq {t : List Char} (ht : ∀ d, t.head? = some d → d = '\n' ∨ d = ';') :
      ((q.left ++ t).head? == some c) = (q.left.head? == some c) := by
    rw [Bool.eq_iff_iff, beq_iff_eq, beq_iff_eq, Spot.head?_eq_iff ht hc]
  refine ⟨heq fun _ => h.head?_behind, ?_⟩
  rw [Reader.looksAt_apply, String.toList_ofList, isPrefixOf_singleton]
  exact congrArg (fun b => Except.ok (b, q.cursor s f.types)) (heq fun _ => h.head?_end)

theorem drop_at {mid left : List Char} {types : TypeTable} (hleft : q.left = mid ++ left) :
    Reader.drop mid.length (q.cursor s types) = .ok ((), (q.past mid left).cursor s types) := by
  rw [Reader.drop_apply, Spot.cursor, hleft, List.append_assoc, List.drop_left]
  rfl

/-- The cursor goes behind a character that is known. -/
theorem advance_at (h : q.On text s) {c : Char} {left : List Char} (hleft : q.left = c :: left) :
    advance text (q.place f) = .ok ((), (q.past [c] left).place f) ∧
      Reader.drop 1 (q.cursor s f.types) = .ok ((), (q.past [c] left).cursor s f.types) := by
  have hsplit := h.split
  rw [hleft] at hsplit
  exact ⟨advance_apply hsplit, drop_at (show q.left = [c] ++ left from hleft)⟩

/-- What was passed over on a line is a slice of the text. -/
theorem slice_at (h : q.On text s) {mid left : List Char} (hleft : q.left = mid ++ left) :
    slice text (byteSize q.before) ((q.past mid left).place f) =
      .ok (mid, (q.past mid left).place f) := by
  have hsplit := h.split
  rw [hleft, List.append_assoc] at hsplit
  exact slice_apply hsplit

/-- A word that fits on a line before its comment, and is not empty. -/
def Plain (word : String) : Prop :=
  0 < word.toList.length ∧ ∀ c ∈ word.toList, c ≠ '\n' ∧ c ≠ ';'

instance (word : String) : Decidable (Plain word) :=
  @instDecidableAnd _ _ (Nat.decLt _ _) (List.decidableBAll _ word.toList)

section Words

variable {word : String} (hword : Plain word)
include hword

/-- A plain word does not go on into what ends the line. -/
theorem prefix_plain {t : List Char} (ht : ∀ d, t.head? = some d → d = '\n' ∨ d = ';') :
    word.toList <+: q.left ++ t ↔ word.toList <+: q.left :=
  Reader.prefix_append fun d hd hmem => (ht d hd).elim (hword.2 d hmem).1 (hword.2 d hmem).2

/-- A question for a plain word gets the same answer from both, and leaves both where they are. -/
theorem looksAt_at (h : q.On text s) :
    looksAt text word (q.place f) = .ok (word.toList.isPrefixOf q.left, q.place f) ∧
      Reader.looksAt word (q.cursor s f.types) =
        .ok (word.toList.isPrefixOf q.left, q.cursor s f.types) := by
  have heq {t : List Char} (ht : ∀ d, t.head? = some d → d = '\n' ∨ d = ';') :
      word.toList.isPrefixOf (q.left ++ t) = word.toList.isPrefixOf q.left := by
    rw [Bool.eq_iff_iff, List.isPrefixOf_iff_prefix, List.isPrefixOf_iff_prefix,
      prefix_plain hword ht]
  constructor
  · rw [Spot.place, looksAt_apply h.split, heq fun _ => h.head?_behind]
  · rw [Reader.looksAt_apply, Spot.cursor, heq fun _ => h.head?_end]

end Words

theorem looksAt_follows {word : String} (hword : Plain word) :
    Follows text (looksAt text word) (Reader.looksAt word) := by
  intro s q f h
  obtain ⟨hscan, hread⟩ := looksAt_at hword h
  exact .answers _ q f.types h (.refl q) hscan hread

/-! ## Blanks

The reader passes over blanks only, for the comment is not in its text. The scan passes over the
comment as well, but only if it comes to it, and then nothing is left of the line for either of
them. -/

/-- Blanks in front of what is passed over are passed over too. Induction on the blanks. -/
theorem passes_gap {gap mid rest : List Char} (hgap : ∀ c ∈ gap, isGap c = true ∧ c ≠ ';')
    (hmore : Passes false mid rest) : Passes false (gap ++ mid) rest := by
  induction gap with
  | nil => exact hmore
  | cons c gap ih =>
    obtain ⟨hblank, hcomment⟩ := hgap c List.mem_cons_self
    exact .blank hcomment hblank (ih fun d hd => hgap d (List.mem_cons_of_mem c hd))

/-- At the end of a line its comment is passed over, and no more. -/
theorem passes_comment (h : q.On text s) : Passes false q.comment s := by
  -- a line feed is no blank within a line
  have hstop : Passes false [] s := .stop fun c hc => by
    obtain rfl := Reader.eq_feed h.ends rfl hc
    decide
  cases hcomment : q.comment with
  | nil => exact hstop
  | cons c cs =>
    have hhead := h.comment_head c
    have hfeed := h.comment_feed
    rw [hcomment] at hhead hfeed
    obtain rfl : c = ';' := hhead rfl
    have hpasses : Passes false (';' :: (cs ++ [])) s :=
      .comment (List.not_mem_of_not_mem_cons hfeed) h.ends hstop
    rwa [List.append_nil] at hpasses

/-- Blanks are passed over, and the comment with them if nothing else is left. What comes next is then
the same for the scan and for the reader. -/
theorem exists_skip (h : q.On text s) (f : Routine) :
    ∃ q' : Spot, q'.On text s ∧ q.Leads q' ∧
      skipBlanks text false (q.place f) = .ok ((), q'.place f) ∧
      Reader.skipGap (q.cursor s f.types) = .ok ((), q'.cursor s f.types) ∧
      (q'.left ++ q'.behind s).head? = (q'.left ++ s.head?.toList).head? := by
  -- for the reader the line ends where `s` begins, whether there is a comment or not
  have hline : (q.left ++ s.head?.toList).dropWhile isGap =
      q.left.dropWhile isGap ++ s.head?.toList :=
    Reader.dropWhile_line h.ends Option.head?_toList Reader.isGap_feed
  have hgap {cs : List Char} (hcs : cs ⊆ q.left) (hall : ∀ c ∈ cs, isGap c = true) :
      ∀ c ∈ cs, isGap c = true ∧ c ≠ ';' :=
    fun c hc => ⟨hall c hc, (h.plain c (hcs hc)).2⟩
  cases hleft : q.left.dropWhile isGap with
  | nil =>
    -- only blanks are left of the line, so the scan goes on through the comment
    have hpasses : Passes false (q.left ++ q.comment) s :=
      passes_gap (hgap (List.Subset.refl _) (List.dropWhile_eq_nil_iff.1 hleft)) (passes_comment h)
    have hsplit := h.split
    rw [Spot.behind, ← List.append_assoc] at hsplit
    refine ⟨⟨q.before ++ (q.left ++ q.comment), [], []⟩, ⟨hsplit.move, h.ends, nofun, nofun, nofun⟩,
      ⟨List.nil_suffix, List.nil_suffix⟩, skipBlanks_apply hpasses hsplit, ?_, ?_⟩
    · rw [Reader.skipGap_apply, Spot.cursor, hline, hleft]
      rfl
    · exact Option.head?_toList.symm
  | cons c t =>
    have hwhole : q.left = q.left.takeWhile isGap ++ (c :: t) := by
      rw [← hleft, List.takeWhile_append_dropWhile]
    have hc : c ≠ ';' := (h.plain c (hwhole ▸ List.mem_append_right _ List.mem_cons_self)).2
    have hstop : Passes false [] (c :: t ++ q.behind s) := .stop fun d hd => by
      obtain rfl : c = d := Option.some.inj hd
      exact ⟨hc, Reader.not_of_head?_dropWhile (p := isGap) (congrArg List.head? hleft)⟩
    -- something is left, and the scan stops where the reader does
    have hpasses := passes_gap (hgap (List.takeWhile_prefix _).subset fun c hc =>
      List.all_eq_true.1 List.all_takeWhile c hc) hstop
    rw [List.append_nil] at hpasses
    have hsplit := h.split
    rw [hwhole, List.append_assoc] at hsplit
    refine ⟨q.past (q.left.takeWhile isGap) (c :: t), h.past hwhole, Spot.leads_past hwhole,
      skipBlanks_apply hpasses hsplit, ?_, rfl⟩
    rw [Reader.skipGap_apply, Spot.cursor, hline, hleft]
    rfl

/-- A refusal that shows what comes next, where this is the same for both. -/
theorem refuses_found {cause : Option Char → Refusal} (hcause : ∀ next b, cause next ≠ .fault b)
    (h : q.On text s) (hhead : (q.left ++ q.behind s).head? = (q.left ++ s.head?.toList).head?) :
    FollowsAt (do refuse (cause (← current text)) : Scan α)
      (do throw (cause (← Reader.peek)) : Reader α) text s q f := by
  refine .bind_looks h (current_at h) rfl ?_
  change FollowsAt (refuse (cause (q.left ++ q.behind s).head?))
    (throw (cause (q.left ++ s.head?.toList).head?)) text s q f
  rw [hhead]
  exact Follows.refuse (hcause _) f h

/-! ## Tokens

Each token reader passes over blanks and then looks or takes, so each of these is `exists_skip` and
a law of looking or of a run. What a refusal shows is the character behind the blanks, which is why
`exists_skip` says that this is the same for both. -/

/-- A run of characters that neither end a line nor begin a comment stays on the line. -/
theorem exists_run {p : Char → Bool} (hp : p '\n' = false ∧ p ';' = false) (h : q.On text s)
    (f : Routine) :
    ∃ run rest, q.left = run ++ rest ∧ (∀ c ∈ run, p c = true) ∧
      takeRun text p (q.place f) = .ok (run, (q.past run rest).place f) ∧
      Reader.takeRun p (q.cursor s f.types) = .ok (run, (q.past run rest).cursor s f.types) := by
  -- the run ends with the line even if what follows `t` would go on with it
  have hrun {t : List Char} (ht : ∀ d, t.head? = some d → d = '\n' ∨ d = ';') :
      (q.left ++ t).takeWhile p = q.left.takeWhile p ∧
        (q.left ++ t).dropWhile p = q.left.dropWhile p ++ t := Reader.run_append fun d hd => by
    rcases ht d hd with rfl | rfl
    · exact hp.1
    · exact hp.2
  have hscan := hrun fun _ => h.head?_behind
  have hread := hrun fun _ => h.head?_end
  refine ⟨q.left.takeWhile p, q.left.dropWhile p, List.takeWhile_append_dropWhile.symm,
    fun c hc => List.all_eq_true.1 List.all_takeWhile c hc, ?_, ?_⟩
  · rw [Spot.place, takeRun_apply h.split, hscan.1]
    rfl
  · rw [Reader.takeRun_apply, Spot.cursor, hread.1, hread.2]
    rfl

theorem takeRun_follows {p : Char → Bool} (hp : p '\n' = false ∧ p ';' = false) :
    Follows text (takeRun text p) (Reader.takeRun p) := by
  intro s q f h
  obtain ⟨run, rest, hleft, _, hscan, hread⟩ := exists_run hp h f
  exact .answers run _ f.types (h.past hleft) (Spot.leads_past hleft) hscan hread

/-- A name is scanned as it is read, or both refuse with the same character. -/
theorem identifier_follows : Follows text (identifier text) Reader.identifier := by
  intro s q f h
  obtain ⟨q', hon, hq, hscan, hread, hhead⟩ := exists_skip h f
  obtain ⟨run, rest, hleft, _, hrun, hrun'⟩ := exists_run (p := Reader.isNameChar) (by decide) hon f
  have hon' : (q'.past run rest).On text s := hon.past hleft
  refine .bind_answers h hon hq hscan hread (.bind_past hon hleft hrun hrun' ?_)
  cases run with
  | nil =>
    -- nothing was taken, so the refusal shows what comes behind the blanks
    obtain rfl : q'.left = rest := hleft
    exact refuses_found (fun _ _ => nofun) hon' hhead
  | cons c name => exact Follows.pure _ f hon'

/-- Whether the line ends is answered behind the blanks, and so is what is shown if it does not. -/
theorem exists_atLineEnd (h : q.On text s) (f : Routine) :
    ∃ ended, ∃ q' : Spot, q'.On text s ∧ q.Leads q' ∧
      atLineEnd text (q.place f) = .ok (ended, q'.place f) ∧
      Reader.atLineEnd (q.cursor s f.types) = .ok (ended, q'.cursor s f.types) ∧
      (q'.left ++ q'.behind s).head? = (q'.left ++ s.head?.toList).head? := by
  obtain ⟨q', hon, hq, hscan, hread, hhead⟩ := exists_skip h f
  let next := (q'.left ++ q'.behind s).head?
  refine ⟨next == none || next == some '\n', q', hon, hq, ?_, ?_, hhead⟩
  · rw [atLineEnd, bind_of_ok hscan, bind_of_ok (current_at hon)]
    rfl
  · rw [Reader.atLineEnd, Reader.bind_apply, hread, show next = _ from hhead]
    rfl

theorem atLineEnd_follows : Follows text (atLineEnd text) Reader.atLineEnd := by
  intro s q f h
  obtain ⟨ended, q', hon, hq, hscan, hread, _⟩ := exists_atLineEnd h f
  exact .answers ended q' f.types hon hq hscan hread

/-- The end of a line is expected by both, or both refuse with the same character. -/
theorem lineEnd_follows : Follows text (lineEnd text) Reader.lineEnd := by
  intro s q f h
  obtain ⟨ended, q', hon, hq, hscan, hread, hhead⟩ := exists_atLineEnd h f
  refine .bind_answers h hon hq hscan hread ?_
  cases ended with
  | true => exact Follows.pure () f hon
  | false => exact refuses_found (fun _ _ => nofun) hon hhead

/-- A word is taken by both, or by neither. -/
inductive Accepts (word : String) (text s : List Char) (q : Spot) (f : Routine) : Prop
  | taken (q' : Spot) (hon : q'.On text s) (hq : q.Leads q')
      (hshort : q'.left.length < q.left.length)
      (hscan : accept text word (q.place f) = .ok (true, q'.place f))
      (hread : Reader.accept word (q.cursor s f.types) = .ok (true, q'.cursor s f.types))
  | missing (q' : Spot) (hon : q'.On text s) (hq : q.Leads q')
      (hscan : accept text word (q.place f) = .ok (false, q'.place f))
      (hread : Reader.accept word (q.cursor s f.types) = .ok (false, q'.cursor s f.types))
      (hhead : (q'.left ++ q'.behind s).head? = (q'.left ++ s.head?.toList).head?)

/-- A plain word is looked for by both behind the same blanks. If it is there it is passed over, and
if not, the blanks stay passed over all the same. -/
theorem accept_cases {word : String} (hword : Plain word) (h : q.On text s) (f : Routine) :
    Accepts word text s q f := by
  obtain ⟨q', hon, hq, hscan, hread, hhead⟩ := exists_skip h f
  obtain ⟨hlook, hlook'⟩ := looksAt_at (f := f) hword hon
  cases hp : word.toList.isPrefixOf q'.left with
  | true =>
    rw [hp] at hlook hlook'
    obtain ⟨left, hleft⟩ := List.isPrefixOf_iff_prefix.1 hp
    have hsplit := hon.split
    rw [← hleft, List.append_assoc] at hsplit
    refine .taken (q'.past word.toList left) (hon.past hleft.symm)
      (hq.trans (Spot.leads_past hleft.symm)) ?_ ?_ ?_
    · have hle := hq.left.length_le
      have hpos := hword.1
      rw [← hleft, List.length_append] at hle
      change left.length < q.left.length
      omega
    · -- the scan goes along the word character by character, the reader drops it at once
      rw [accept, bind_of_ok hscan, bind_of_ok hlook]
      exact bind_of_ok (advance_word hsplit)
    · rw [Reader.accept, Reader.bind_apply, hread]
      simp only [Reader.bind_apply, hlook', if_true, ← String.length_toList, drop_at hleft.symm]
      rfl
  | false =>
    rw [hp] at hlook hlook'
    refine .missing q' hon hq ?_ ?_ hhead
    · rw [accept, bind_of_ok hscan, bind_of_ok hlook]
      rfl
    · rw [Reader.accept, Reader.bind_apply, hread]
      simp only [Reader.bind_apply, hlook']
      rfl

/-- A word that has to come next is taken by both, or both refuse with the same character. -/
theorem expect_follows {word : String} (hword : Plain word) :
    Follows text (expect text word) (Reader.expect word) := by
  intro s q f h
  cases accept_cases hword h f with
  | taken q' hon hq _ hscan hread =>
    exact .bind_answers h hon hq hscan hread (Follows.pure () f hon)
  | missing q' hon hq hscan hread hhead =>
    exact .bind_answers h hon hq hscan hread (refuses_found (fun _ _ => nofun) hon hhead)

/-! ## Repetition

The guards differ here: the scan asks for a larger position, the reader for a shorter line. A word
that is taken grants both. Nothing else has to be known of the step, so the law is about all
repetitions of the grammar at once. -/

/-- A loop whose steps each begin with a word goes on for as long as that word is taken. The word that
was taken moves the cursor on, so that the loop does not stall. -/
theorem loop_follows {word : String} (hword : Plain word) {item : Scan (Option α)}
    {item' : Reader (Option α)} (hitem : Follows text item item') :
    Follows text (loop text do if ← accept text word then item else return none)
      (Reader.many do if ← Reader.accept word then item' else return none) := by
  intro s q f h
  -- what is left of the line gets shorter with every word that is taken
  induction hn : q.left.length using Nat.strongRecOn generalizing q f with
  | _ n ih =>
    subst hn
    cases accept_cases hword h f with
    | missing q' hon hq hscan hread _ =>
      refine .answers [] q' f.types hon hq (loop_stop (bind_of_ok hscan)) ?_
      rw [Reader.many, Reader.bind_apply, hread]
      rfl
    | taken q' hon hq hshort hscan hread =>
      have hstep : (do if ← accept text word then item else return none : Scan (Option α))
          (q.place f) = item (q'.place f) := bind_of_ok hscan
      have hstep' : (do if ← Reader.accept word then item' else return none : Reader (Option α))
          (q.cursor s f.types) = item' (q'.cursor s f.types) := by
        rw [Reader.bind_apply, hread]
        rfl
      cases hitem f hon with
      | refuses cause hcause hx hy =>
        rw [← hon.count_eq h] at hx
        refine .refuses cause hcause (loop_error (hstep.trans hx)) ?_
        rw [Reader.many, hstep', hy]
      | answers x? q'' types hon' hq' hx hy =>
        have hleads : q.Leads q'' := hq.trans hq'
        cases x? with
        | none =>
          refine .answers [] q'' types hon' hleads (loop_stop (hstep.trans hx)) ?_
          rw [Reader.many, hstep', hy]
        | some x =>
          have hlt : q''.left.length < q.left.length :=
            Nat.lt_of_le_of_lt hq'.left.length_le hshort
          have hloop := loop_more (hstep.trans hx) hon'.split (h.pos_lt hon' hleads hlt)
          have hguard : (q''.cursor s types).rest.length < (q.cursor s f.types).rest.length := by
            simp only [Spot.cursor, List.length_append]
            omega
          cases ih q''.left.length hlt { f with types } hon' rfl with
          | refuses cause hcause hrest hrest' =>
            rw [← hon'.count_eq h] at hrest
            refine .refuses cause hcause (hloop.trans ?_) ?_
            · unfold Spot.place at hrest
              rw [hrest]
            · rw [Reader.many, hstep', hy]
              simp only [hguard, if_true, show Reader.many _ _ = _ from hrest']
          | answers xs q₃ types₃ hon₃ hq₃ hrest hrest' =>
            refine .answers (x :: xs) q₃ types₃ hon₃ (hleads.trans hq₃) (hloop.trans ?_) ?_
            · unfold Spot.place at hrest
              rw [hrest]
              rfl
            · rw [Reader.many, hstep', hy]
              simp only [hguard, if_true, show Reader.many _ _ = _ from hrest']

/-- A list of items is scanned as it is read, if each item is. -/
theorem commaList_follows {item : Scan α} {item' : Reader α} (hitem : Follows text item item') :
    Follows text (commaList text item) (Reader.commaList item') :=
  hitem.bind fun _ => (loop_follows (by decide) (hitem.map some)).bind fun _ => .pure _

end Lowering.Scan
