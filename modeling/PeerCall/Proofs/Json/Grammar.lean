import PeerCall.Json.Draft
import PeerCall.Proofs.Json.Scanning

/-!
# The grammar of values

A text spells a value if its lexemes are those of the value, written in any way and with any layout
between them. The reader finds in a text exactly the values that it spells, as long as they keep
its limits: it reads every spelling, and what it reads is spelled.
-/

namespace PeerCall.Json

namespace Tree

mutual

/-- The lexemes of a value. -/
def lexemes : Tree → List Lexeme
  | .null => [.null]
  | .bool b => [.bool b]
  | .number n => [.number n]
  | .text s => [.text (some s)]
  | .list items => .leftBracket :: itemLexemes items ++ [.rightBracket]
  | .record members => .leftBrace :: memberLexemes members ++ [.rightBrace]

def itemLexemes : List Tree → List Lexeme
  | [] => []
  | [item] => item.lexemes
  | item :: rest => item.lexemes ++ .comma :: itemLexemes rest

def memberLexemes : List (String × Tree) → List Lexeme
  | [] => []
  | [(key, value)] => .text (some key) :: .colon :: value.lexemes
  | (key, value) :: rest =>
    .text (some key) :: .colon :: value.lexemes ++ .comma :: memberLexemes rest

end

mutual

/-- The draft of a value, which breaks nowhere. -/
def draft : Tree → Draft
  | .null => .null
  | .bool b => .bool b
  | .number n => .number n
  | .text s => .text (some s)
  | .list items => .list (itemDrafts items) none
  | .record members => .record (memberDrafts members) none

def itemDrafts : List Tree → List Draft
  | [] => []
  | item :: rest => item.draft :: itemDrafts rest

def memberDrafts : List (String × Tree) → List (Option String × Draft)
  | [] => []
  | (key, value) :: rest => (some key, value.draft) :: memberDrafts rest

end

/-- A text that spells a value. -/
def Spells (t : Tree) (cs : List Char) : Prop := Laid t.lexemes cs

mutual

/-- The limits of the reader: a value is nested no deeper than `room`, and its numerals are in the
range of the doubles. -/
def Bounded (room : Nat) : Tree → Prop
  | .number n => n.inRange = true
  | .list items => 0 < room ∧ ItemsBounded (room - 1) items
  | .record members => 0 < room ∧ MembersBounded (room - 1) members
  | _ => True

def ItemsBounded (room : Nat) : List Tree → Prop
  | [] => True
  | item :: rest => item.Bounded room ∧ ItemsBounded room rest

def MembersBounded (room : Nat) : List (String × Tree) → Prop
  | [] => True
  | (_, value) :: rest => value.Bounded room ∧ MembersBounded room rest

end

/-- The members of a record are bounded if the value of each of them is. -/
theorem membersBounded_iff {room : Nat} {members : List (String × Tree)} :
    MembersBounded room members ↔ ∀ m ∈ members, m.2.Bounded room := by
  induction members with
  | nil => simp [MembersBounded]
  | cons m members ih => simp [MembersBounded, ih]

end Tree

/-! ## Lexemes and drafts -/

/-- How a draft goes on with the lexemes that follow. -/
def Draft.Progress.goOn : Draft.Progress → List Lexeme → Draft × List Lexeme
  | .more stack awaited, rest => Draft.ofLexemes stack awaited rest
  | .whole draft, rest => (draft, rest)
  | .cut draft, _ => (draft, [])

/-- A reader goes on with what the first lexeme leaves it. -/
theorem Draft.ofLexemes_cons (stack : List Draft.Frame) (awaited : Draft.Awaited)
    (lexeme : Lexeme) (rest : List Lexeme) :
    Draft.ofLexemes stack awaited (lexeme :: rest) =
      (Draft.step stack awaited lexeme).goOn rest := by
  rw [Draft.ofLexemes]
  cases Draft.step stack awaited lexeme <;> rfl

namespace Tree

open Draft (ofLexemes put)

/-- Where a list may end, a value may begin as well. -/
theorem ofLexemes_itemOrEnd (t : Tree) (stack : List Draft.Frame) (rest : List Lexeme) :
    ofLexemes stack .itemOrEnd (t.lexemes ++ rest) =
      ofLexemes stack .value (t.lexemes ++ rest) := by
  cases t <;> rfl

/-- The lexemes of a list begin with those of its first item. -/
theorem exists_itemLexemes (item : Tree) (items : List Tree) :
    ∃ more, itemLexemes (item :: items) = item.lexemes ++ more := by
  cases items with
  | nil => exact ⟨[], (List.append_nil _).symm⟩
  | cons next items => exact ⟨_, rfl⟩

mutual

/-- The lexemes of a value are put together to its draft. -/
theorem ofLexemes_lexemes : ∀ (t : Tree) (stack : List Draft.Frame) (rest : List Lexeme),
    ofLexemes stack .value (t.lexemes ++ rest) = (put t.draft stack).goOn rest
  | .null, stack, rest | .bool _, stack, rest | .number _, stack, rest | .text _, stack, rest =>
    Draft.ofLexemes_cons stack .value _ rest
  | .list [], stack, rest => Draft.ofLexemes_cons (.list [] :: stack) .itemOrEnd .rightBracket rest
  | .list (item :: items), stack, rest => by
    obtain ⟨more, hmore⟩ := exists_itemLexemes item items
    calc ofLexemes stack .value ((Tree.list (item :: items)).lexemes ++ rest)
        = ofLexemes (.list [] :: stack) .itemOrEnd
            (itemLexemes (item :: items) ++ .rightBracket :: rest) := by
          rw [lexemes, List.append_assoc]
          exact Draft.ofLexemes_cons stack .value .leftBracket _
      _ = ofLexemes (.list [] :: stack) .value
            (itemLexemes (item :: items) ++ .rightBracket :: rest) := by
          rw [hmore, List.append_assoc, ofLexemes_itemOrEnd]
      _ = (put (Tree.list (item :: items)).draft stack).goOn rest :=
          ofLexemes_items (item :: items) (List.cons_ne_nil _ _) [] stack rest
  | .record [], stack, rest =>
    Draft.ofLexemes_cons (.record [] :: stack) .keyOrEnd .rightBrace rest
  | .record ((key, value) :: members), stack, rest => by
    have hmembers :=
      ofLexemes_members ((key, value) :: members) (List.cons_ne_nil _ _) [] stack rest
    rw [lexemes, List.append_assoc]
    cases members <;> exact hmembers

/-- So are those of items, after the items before them. -/
theorem ofLexemes_items : ∀ (items : List Tree), items ≠ [] → ∀ (done : List Draft)
    (stack : List Draft.Frame) (rest : List Lexeme),
    ofLexemes (.list done :: stack) .value (itemLexemes items ++ .rightBracket :: rest) =
      (put (.list (done.reverse ++ itemDrafts items) none) stack).goOn rest
  | [], hne, _, _, _ => absurd rfl hne
  | [item], _, done, stack, rest => by
    have hend : ofLexemes (.list (item.draft :: done) :: stack) .separator (.rightBracket :: rest) =
        (put (.list (item.draft :: done).reverse none) stack).goOn rest :=
      Draft.ofLexemes_cons _ .separator .rightBracket rest
    rw [List.reverse_cons] at hend
    rw [itemLexemes, ofLexemes_lexemes]
    exact hend
  | item :: next :: items, _, done, stack, rest => by
    have hnext := ofLexemes_items (next :: items) (List.cons_ne_nil _ _) (item.draft :: done) stack
      rest
    rw [List.reverse_cons, List.append_assoc] at hnext
    rw [itemLexemes, List.append_assoc, ofLexemes_lexemes]
    · exact hnext
    · simp

/-- So are those of members, after the members before them. -/
theorem ofLexemes_members : ∀ (members : List (String × Tree)), members ≠ [] →
    ∀ (done : List (Option String × Draft)) (stack : List Draft.Frame) (rest : List Lexeme),
    ofLexemes (.record done :: stack) .key (memberLexemes members ++ .rightBrace :: rest) =
      (put (.record (done.reverse ++ memberDrafts members) none) stack).goOn rest
  | [], hne, _, _, _ => absurd rfl hne
  | [(key, value)], _, done, stack, rest => by
    have hend : ofLexemes (.record ((some key, value.draft) :: done) :: stack) .separator
        (.rightBrace :: rest) =
          (put (.record ((some key, value.draft) :: done).reverse none) stack).goOn rest :=
      Draft.ofLexemes_cons _ .separator .rightBrace rest
    have hvalue := ofLexemes_lexemes value (.member done (some key) :: stack) (.rightBrace :: rest)
    rw [List.reverse_cons] at hend
    exact hvalue.trans hend
  | (key, value) :: next :: members, _, done, stack, rest => by
    have hnext := ofLexemes_members (next :: members) (List.cons_ne_nil _ _)
      ((some key, value.draft) :: done) stack rest
    have hvalue := ofLexemes_lexemes value (.member done (some key) :: stack)
      (.comma :: memberLexemes (next :: members) ++ .rightBrace :: rest)
    rw [List.reverse_cons, List.append_assoc] at hnext
    rw [memberLexemes, List.append_assoc]
    · exact hvalue.trans hnext
    · simp

end

end Tree

/-! ## What has been put together -/

namespace Draft

open Lexeme (comma colon)

mutual

/-- The lexemes of a draft, as far as it breaks nowhere. -/
def lexemes : Draft → List Lexeme
  | .null => [.null]
  | .bool b => [.bool b]
  | .number n => [.number n]
  | .text s => [.text s]
  | .list items _ => .leftBracket :: itemLexemes items ++ [.rightBracket]
  | .record members _ => .leftBrace :: memberLexemes members ++ [.rightBrace]
  | .broken _ => []

def itemLexemes : List Draft → List Lexeme
  | [] => []
  | [item] => item.lexemes
  | item :: rest => item.lexemes ++ .comma :: itemLexemes rest

def memberLexemes : List (Option String × Draft) → List Lexeme
  | [] => []
  | [(key, value)] => .text key :: .colon :: value.lexemes
  | (key, value) :: rest => .text key :: .colon :: value.lexemes ++ .comma :: memberLexemes rest

end

/-- The last item of a list comes after the others and their commas. -/
theorem itemLexemes_concat (items : List Draft) (last : Draft) :
    itemLexemes (items ++ [last]) =
      items.flatMap (fun item => item.lexemes ++ [.comma]) ++ last.lexemes := by
  induction items with
  | nil => rfl
  | cons item items ih =>
    have hcons : itemLexemes (item :: (items ++ [last])) =
        item.lexemes ++ .comma :: itemLexemes (items ++ [last]) := by
      cases items <;> rfl
    rw [List.cons_append, hcons, ih]
    simp

/-- The last member of a record comes after the others and their commas. -/
theorem memberLexemes_concat (members : List (Option String × Draft)) (key : Option String)
    (value : Draft) :
    memberLexemes (members ++ [(key, value)]) =
      members.flatMap (fun m => .text m.1 :: .colon :: m.2.lexemes ++ [.comma]) ++
        .text key :: .colon :: value.lexemes := by
  induction members with
  | nil => rfl
  | cons m members ih =>
    have hcons : memberLexemes (m :: (members ++ [(key, value)])) =
        .text m.1 :: .colon :: m.2.lexemes ++
          .comma :: memberLexemes (members ++ [(key, value)]) := by
      cases members <;> rfl
    rw [List.cons_append, hcons, ih]
    simp

/-- A draft that breaks nowhere. -/
def IsWhole (d : Draft) : Prop := ∃ t : Tree, d = t.draft

/-- A list with a flaw is not whole. -/
theorem not_isWhole_list (items : List Draft) (flaw : Flaw) :
    ¬(Draft.list items (some flaw)).IsWhole := by
  rintro ⟨t, ht⟩
  cases t <;> simp [Tree.draft] at ht

/-- A record with a flaw is not whole. -/
theorem not_isWhole_record (members : List (Option String × Draft)) (flaw : Flaw) :
    ¬(Draft.record members (some flaw)).IsWhole := by
  rintro ⟨t, ht⟩
  cases t <;> simp [Tree.draft] at ht

/-- What is sealed at a break is not whole. -/
theorem not_isWhole_sealAll (flaw : Flaw) {d : Draft} (hd : ¬d.IsWhole) (stack : List Frame) :
    ¬(sealAll flaw d stack).IsWhole := by
  induction stack generalizing d with
  | nil => exact hd
  | cons frame stack ih =>
    cases frame with
    | list items => exact ih (not_isWhole_list _ flaw)
    | record members => exact ih (not_isWhole_record _ flaw)
    | member members key => exact ih (not_isWhole_record _ flaw)

/-- What is cut where a value is awaited is not whole. -/
theorem not_isWhole_cutValue (flaw : Flaw) (stack : List Frame) :
    ¬(cutValue flaw stack).IsWhole := by
  refine not_isWhole_sealAll flaw ?_ stack
  rintro ⟨t, ht⟩
  cases t <;> simp [Tree.draft] at ht

/-- What is cut before its end is not whole. -/
theorem not_isWhole_cutEnding (flaw : Flaw) (stack : List Frame) :
    ¬(cutEnding flaw stack).IsWhole := by
  cases stack with
  | nil => exact not_isWhole_cutValue flaw []
  | cons frame stack =>
    cases frame with
    | list items => exact not_isWhole_sealAll flaw (not_isWhole_list _ flaw) stack
    | record members => exact not_isWhole_sealAll flaw (not_isWhole_record _ flaw) stack
    | member members key => exact not_isWhole_cutValue flaw (.member members key :: stack)

/-- The lexemes of an open container, up to where its next part is awaited. -/
def Frame.lexemes : Frame → List Lexeme
  | .list items => .leftBracket :: items.reverse.flatMap fun item => item.lexemes ++ [.comma]
  | .record members => .leftBrace ::
    members.reverse.flatMap fun m => .text m.1 :: .colon :: m.2.lexemes ++ [.comma]
  | .member members key => .leftBrace ::
    members.reverse.flatMap (fun m => .text m.1 :: .colon :: m.2.lexemes ++ [.comma]) ++
      [.text key, .colon]

/-- The lexemes of all open containers. -/
def stackLexemes (stack : List Frame) : List Lexeme := stack.reverse.flatMap Frame.lexemes

/-- The lexemes of a frame come after those of the frames around it. -/
theorem stackLexemes_cons (frame : Frame) (stack : List Frame) :
    stackLexemes (frame :: stack) = stackLexemes stack ++ frame.lexemes := by
  simp [stackLexemes]

/-- The states to which the lexemes read so far can have led. -/
inductive Holds : List Frame → Awaited → List Lexeme → Prop
  | value (stack : List Frame) : Holds stack .value (stackLexemes stack)
  | itemOrEnd (stack : List Frame) :
    Holds (.list [] :: stack) .itemOrEnd (stackLexemes (.list [] :: stack))
  | key (members : List (Option String × Draft)) (stack : List Frame) :
    Holds (.record members :: stack) .key (stackLexemes (.record members :: stack))
  | keyOrEnd (stack : List Frame) :
    Holds (.record [] :: stack) .keyOrEnd (stackLexemes (.record [] :: stack))
  | colon (members : List (Option String × Draft)) (key : Option String) (stack : List Frame) :
    Holds (.member members key :: stack) .colon
      (stackLexemes (.record members :: stack) ++ [.text key])
  | afterItem (item : Draft) (items : List Draft) (stack : List Frame) :
    Holds (.list (item :: items) :: stack) .separator
      (stackLexemes (.list items :: stack) ++ item.lexemes)
  | afterMember (key : Option String) (value : Draft) (members : List (Option String × Draft))
    (stack : List Frame) :
    Holds (.record ((key, value) :: members) :: stack) .separator
      (stackLexemes (.member members key :: stack) ++ value.lexemes)

/-- What has come of the lexemes read so far. -/
def Progress.Holds (read : List Lexeme) : Progress → Prop
  | .more stack awaited => Draft.Holds stack awaited read
  | .whole draft => draft.lexemes = read
  | .cut draft => ¬draft.IsWhole

/-- A finished value goes to the innermost container. -/
theorem put_holds (d : Draft) (stack : List Frame) :
    (put d stack).Holds (stackLexemes stack ++ d.lexemes) := by
  cases stack with
  | nil => rfl
  | cons frame stack =>
    cases frame with
    | list items => exact .afterItem d items stack
    | record members => exact not_isWhole_cutEnding _ _
    | member members key => exact .afterMember key d members stack

/-- A lexeme that is put where a value is awaited is the last that has been read. -/
theorem putLexeme_holds (stack : List Frame) (lexeme : Lexeme) :
    (putLexeme stack lexeme).Holds (stackLexemes stack ++ [lexeme]) := by
  cases lexeme with
  | null => exact put_holds .null stack
  | bool b => exact put_holds (.bool b) stack
  | number n => exact put_holds (.number n) stack
  | text s => exact put_holds (.text s) stack
  | leftBracket =>
    have h := Holds.itemOrEnd stack
    rwa [stackLexemes_cons] at h
  | leftBrace =>
    have h := Holds.keyOrEnd stack
    rwa [stackLexemes_cons] at h
  | rightBrace | rightBracket | comma | colon | brokenText _ | broken _ =>
    exact not_isWhole_cutValue _ stack

/-- So is one that is put where a key is awaited. -/
theorem putKey_holds (members : List (Option String × Draft)) (stack : List Frame)
    (lexeme : Lexeme) :
    (putKey (.record members :: stack) lexeme).Holds
      (stackLexemes (.record members :: stack) ++ [lexeme]) := by
  cases lexeme with
  | text key => exact .colon members key stack
  | leftBrace | rightBrace | leftBracket | rightBracket | comma | colon | null | bool _ | number _
    | brokenText _ | broken _ => exact not_isWhole_cutEnding _ _

/-- One more lexeme leads to one of the states again, finishes the value, or cuts it off. -/
theorem step_holds {stack : List Frame} {awaited : Awaited} {read : List Lexeme}
    (h : Holds stack awaited read) (lexeme : Lexeme) :
    (step stack awaited lexeme).Holds (read ++ [lexeme]) := by
  cases h with
  | value => exact putLexeme_holds stack lexeme
  | itemOrEnd stack =>
    cases lexeme with
    | rightBracket =>
      have hread : stackLexemes (.list [] :: stack) ++ [.rightBracket] =
          stackLexemes stack ++ (Draft.list [] none).lexemes := by
        simp [stackLexemes_cons, Frame.lexemes, lexemes, itemLexemes]
      rw [hread]
      exact put_holds (.list [] none) stack
    | _ => exact putLexeme_holds (.list [] :: stack) _
  | key members stack => exact putKey_holds members stack lexeme
  | keyOrEnd stack =>
    cases lexeme with
    | rightBrace =>
      have hread : stackLexemes (.record [] :: stack) ++ [.rightBrace] =
          stackLexemes stack ++ (Draft.record [] none).lexemes := by
        simp [stackLexemes_cons, Frame.lexemes, lexemes, memberLexemes]
      rw [hread]
      exact put_holds (.record [] none) stack
    | _ => exact putKey_holds [] stack _
  | colon members key stack =>
    cases lexeme with
    | colon =>
      have hread : stackLexemes (.record members :: stack) ++ [.text key] ++ [.colon] =
          stackLexemes (.member members key :: stack) := by
        simp [stackLexemes_cons, Frame.lexemes]
      rw [hread]
      exact .value (.member members key :: stack)
    | _ => exact not_isWhole_cutEnding _ _
  | afterItem item items stack =>
    cases lexeme with
    | comma =>
      have hread : stackLexemes (.list items :: stack) ++ item.lexemes ++ [.comma] =
          stackLexemes (.list (item :: items) :: stack) := by
        simp [stackLexemes_cons, Frame.lexemes]
      rw [hread]
      exact .value (.list (item :: items) :: stack)
    | rightBracket =>
      have hread : stackLexemes (.list items :: stack) ++ item.lexemes ++ [.rightBracket] =
          stackLexemes stack ++ (Draft.list (item :: items).reverse none).lexemes := by
        simp [stackLexemes_cons, Frame.lexemes, lexemes, itemLexemes_concat]
      rw [hread]
      exact put_holds (.list (item :: items).reverse none) stack
    | _ => exact not_isWhole_cutEnding _ _
  | afterMember key value members stack =>
    cases lexeme with
    | comma =>
      have hread : stackLexemes (.member members key :: stack) ++ value.lexemes ++ [.comma] =
          stackLexemes (.record ((key, value) :: members) :: stack) := by
        simp [stackLexemes_cons, Frame.lexemes]
      rw [hread]
      exact .key ((key, value) :: members) stack
    | rightBrace =>
      have hread : stackLexemes (.member members key :: stack) ++ value.lexemes ++ [.rightBrace] =
          stackLexemes stack ++ (Draft.record ((key, value) :: members).reverse none).lexemes := by
        simp [stackLexemes_cons, Frame.lexemes, lexemes, memberLexemes_concat]
      rw [hread]
      exact put_holds (.record ((key, value) :: members).reverse none) stack
    | _ => exact not_isWhole_cutEnding _ _

/-- A draft that is whole was put together from its own lexemes, and nothing was taken after
them. -/
theorem lexemes_of_ofLexemes {stack : List Frame} {awaited : Awaited} {read : List Lexeme}
    (h : Holds stack awaited read) (coming : List Lexeme)
    (hwhole : (ofLexemes stack awaited coming).1.IsWhole) :
    read ++ coming = (ofLexemes stack awaited coming).1.lexemes ++
      (ofLexemes stack awaited coming).2 := by
  induction coming generalizing stack awaited read with
  | nil =>
    cases awaited with
    | value => exact absurd hwhole (not_isWhole_cutValue _ stack)
    | itemOrEnd | key | keyOrEnd | colon | separator =>
      exact absurd hwhole (not_isWhole_cutEnding _ stack)
  | cons lexeme coming ih =>
    have hstep := step_holds h lexeme
    rw [ofLexemes_cons] at hwhole ⊢
    cases hprogress : step stack awaited lexeme with
    | more stack awaited =>
      rw [hprogress] at hstep hwhole
      rw [List.append_cons]
      exact ih hstep hwhole
    | whole draft =>
      rw [hprogress] at hstep
      have hlexemes : draft.lexemes = read ++ [lexeme] := hstep
      simp [Progress.goOn, hlexemes]
    | cut draft =>
      rw [hprogress] at hstep hwhole
      exact absurd hwhole hstep

end Draft

/-! ## Reading -/

namespace Tree

mutual

/-- The lexemes of a value are those of its draft. -/
theorem lexemes_draft : ∀ t : Tree, t.draft.lexemes = t.lexemes
  | .null | .bool _ | .number _ | .text _ => rfl
  | .list items => by rw [draft, Draft.lexemes, itemLexemes_itemDrafts items, lexemes]
  | .record members => by rw [draft, Draft.lexemes, memberLexemes_memberDrafts members, lexemes]

/-- The drafts of items spell the lexemes of the items. -/
theorem itemLexemes_itemDrafts : ∀ items : List Tree,
    Draft.itemLexemes (itemDrafts items) = itemLexemes items
  | [] => rfl
  | [item] => lexemes_draft item
  | item :: next :: items => by
    calc Draft.itemLexemes (itemDrafts (item :: next :: items))
        = item.draft.lexemes ++ .comma :: Draft.itemLexemes (itemDrafts (next :: items)) := rfl
      _ = itemLexemes (item :: next :: items) := by
          rw [lexemes_draft item, itemLexemes_itemDrafts (next :: items)]
          rfl

/-- The drafts of members spell the lexemes of the members. -/
theorem memberLexemes_memberDrafts : ∀ members : List (String × Tree),
    Draft.memberLexemes (memberDrafts members) = memberLexemes members
  | [] => rfl
  | [(key, value)] => by
    rw [memberDrafts, memberDrafts, Draft.memberLexemes, lexemes_draft value, memberLexemes]
  | (key, value) :: next :: members => by
    calc Draft.memberLexemes (memberDrafts ((key, value) :: next :: members))
        = .text (some key) :: .colon :: value.draft.lexemes ++
            .comma :: Draft.memberLexemes (memberDrafts (next :: members)) := rfl
      _ = memberLexemes ((key, value) :: next :: members) := by
          rw [lexemes_draft value, memberLexemes_memberDrafts (next :: members)]
          rfl

end

mutual

/-- The reader takes a value from its draft if the value keeps the limits. -/
theorem tree_draft : ∀ {room : Nat} {t : Tree}, t.Bounded room → t.draft.tree room = .ok t
  | _, .null, _ | _, .bool _, _ | _, .text _, _ => rfl
  | _, .number _, hbounded => if_pos hbounded
  | 0, .list _, hbounded | 0, .record _, hbounded => absurd hbounded.1 (Nat.lt_irrefl 0)
  | room + 1, .list items, hbounded => by
    have hitems : Draft.treeItems room (itemDrafts items) = .ok items :=
      treeItems_itemDrafts hbounded.2
    rw [draft, Draft.tree, hitems]
    rfl
  | room + 1, .record members, hbounded => by
    have hmembers : Draft.treeMembers room (memberDrafts members) = .ok members :=
      treeMembers_memberDrafts hbounded.2
    rw [draft, Draft.tree, hmembers]
    rfl

/-- Items that are bounded are read from their drafts. -/
theorem treeItems_itemDrafts : ∀ {room : Nat} {items : List Tree}, ItemsBounded room items →
    Draft.treeItems room (itemDrafts items) = .ok items
  | _, [], _ => rfl
  | room, item :: items, hbounded => by
    rw [itemDrafts, Draft.treeItems, tree_draft hbounded.1, treeItems_itemDrafts hbounded.2]
    rfl

/-- Members that are bounded are read from their drafts. -/
theorem treeMembers_memberDrafts : ∀ {room : Nat} {members : List (String × Tree)},
    MembersBounded room members → Draft.treeMembers room (memberDrafts members) = .ok members
  | _, [], _ => rfl
  | room, (key, value) :: members, hbounded => by
    rw [memberDrafts, Draft.treeMembers, tree_draft hbounded.1, treeMembers_memberDrafts hbounded.2]
    rfl

end

mutual

/-- What the reader takes from a draft is a value with this draft, and the value keeps the
limits. -/
theorem eq_draft_of_tree : ∀ {room : Nat} {d : Draft} {t : Tree}, d.tree room = .ok t →
    d = t.draft ∧ t.Bounded room
  | _, .null, _, h | _, .bool _, _, h | _, .text (some _), _, h => by
    cases h
    exact ⟨rfl, trivial⟩
  | _, .number n, _, h => by
    rw [Draft.tree] at h
    split at h
    · next hrange =>
      cases h
      exact ⟨rfl, hrange⟩
    · cases h
  | _, .text none, _, h | _, .broken _, _, h => by cases h
  | 0, .list _ _, _, h | 0, .record _ _, _, h => by cases h
  | room + 1, .list items ending, t, h => by
    rw [Draft.tree] at h
    cases hitems : Draft.treeItems room items with
    | error fault => rw [hitems] at h; cases h
    | ok values =>
      obtain ⟨rfl, hbounded⟩ := eq_itemDrafts_of_treeItems hitems
      rw [hitems] at h
      cases ending with
      | none => cases h; exact ⟨rfl, Nat.succ_pos room, hbounded⟩
      | some flaw => cases h
  | room + 1, .record members ending, t, h => by
    rw [Draft.tree] at h
    cases hmembers : Draft.treeMembers room members with
    | error fault => rw [hmembers] at h; cases h
    | ok values =>
      obtain ⟨rfl, hbounded⟩ := eq_memberDrafts_of_treeMembers hmembers
      rw [hmembers] at h
      cases ending with
      | none => cases h; exact ⟨rfl, Nat.succ_pos room, hbounded⟩
      | some flaw => cases h

/-- Drafts from which items are read are those of the items, which are bounded. -/
theorem eq_itemDrafts_of_treeItems : ∀ {room : Nat} {items : List Draft} {values : List Tree},
    Draft.treeItems room items = .ok values →
    items = itemDrafts values ∧ ItemsBounded room values
  | _, [], _, h => by
    cases h
    exact ⟨rfl, trivial⟩
  | room, item :: items, _, h => by
    rw [Draft.treeItems] at h
    cases hitem : item.tree room with
    | error fault => rw [hitem] at h; cases h
    | ok value =>
      cases hitems : Draft.treeItems room items with
      | error fault => rw [hitem, hitems] at h; cases h
      | ok values =>
        obtain ⟨rfl, hvalue⟩ := eq_draft_of_tree hitem
        obtain ⟨rfl, hvalues⟩ := eq_itemDrafts_of_treeItems hitems
        rw [hitem, hitems] at h
        cases h
        exact ⟨rfl, hvalue, hvalues⟩

/-- Drafts from which members are read are those of the members, which are bounded. -/
theorem eq_memberDrafts_of_treeMembers : ∀ {room : Nat} {members : List (Option String × Draft)}
    {values : List (String × Tree)}, Draft.treeMembers room members = .ok values →
    members = memberDrafts values ∧ MembersBounded room values
  | _, [], _, h => by
    cases h
    exact ⟨rfl, trivial⟩
  | _, (none, _) :: _, _, h => by cases h
  | room, (some key, draft) :: members, _, h => by
    rw [Draft.treeMembers] at h
    cases hvalue : draft.tree room with
    | error fault => rw [hvalue] at h; cases h
    | ok value =>
      cases hmembers : Draft.treeMembers room members with
      | error fault => rw [hvalue, hmembers] at h; cases h
      | ok values =>
        obtain ⟨rfl, hbounded⟩ := eq_draft_of_tree hvalue
        obtain ⟨rfl, hrest⟩ := eq_memberDrafts_of_treeMembers hmembers
        rw [hvalue, hmembers] at h
        cases h
        exact ⟨rfl, hbounded, hrest⟩

end

open Lexeme (Apart isIntact)
open Draft (ofLexemes put)

/-- A mark keeps what is before it apart from what is after it. -/
theorem isChain_apart_of_mark {first rest : List Lexeme} {mark : Lexeme}
    (hmark : ∀ n, mark ≠ .number n) (hfirst : first.IsChain Apart) (hrest : rest.IsChain Apart) :
    (first ++ mark :: rest).IsChain Apart := by
  refine List.isChain_append.mpr ⟨hfirst, List.isChain_cons.mpr ⟨?_, hrest⟩, ?_⟩
  · exact fun _ _ m _ heq => absurd heq (hmark m)
  · rintro _ _ _ hhead _ n _
    obtain rfl : mark = _ := by simpa using hhead
    exact hmark n

/-- A key is no numeral either. -/
theorem isChain_apart_member {key : String} {value : List Lexeme}
    (hvalue : value.IsChain Apart) :
    ([.text (some key)] ++ .colon :: value : List Lexeme).IsChain Apart :=
  isChain_apart_of_mark (by simp) (List.isChain_singleton _) hvalue

mutual

/-- In a value no numeral follows a numeral. -/
theorem lexemes_apart : ∀ t : Tree, t.lexemes.IsChain Apart
  | .null | .bool _ | .number _ | .text _ => List.isChain_singleton _
  | .list items =>
    isChain_apart_of_mark (by simp) (isChain_apart_of_mark (by simp) .nil (itemLexemes_apart items))
      .nil
  | .record members =>
    isChain_apart_of_mark (by simp)
      (isChain_apart_of_mark (by simp) .nil (memberLexemes_apart members)) .nil

/-- The lexemes of a list stand apart. -/
theorem itemLexemes_apart : ∀ items : List Tree, (itemLexemes items).IsChain Apart
  | [] => .nil
  | [item] => lexemes_apart item
  | item :: next :: items =>
    isChain_apart_of_mark (by simp) (lexemes_apart item) (itemLexemes_apart (next :: items))

/-- The lexemes of a record stand apart. -/
theorem memberLexemes_apart : ∀ members : List (String × Tree),
    (memberLexemes members).IsChain Apart
  | [] => .nil
  | [(_, value)] => isChain_apart_member (lexemes_apart value)
  | (_, value) :: next :: members =>
    isChain_apart_of_mark (by simp) (isChain_apart_member (lexemes_apart value))
      (memberLexemes_apart (next :: members))

end

mutual

/-- The lexemes of a value break nowhere. -/
theorem isIntact_of_mem_lexemes : ∀ (t : Tree), ∀ lexeme ∈ t.lexemes, lexeme.isIntact = true
  | .null | .bool _ | .number _ | .text _ => by simp [lexemes, isIntact]
  | .list items =>
    List.forall_mem_cons.mpr ⟨rfl, List.forall_mem_append.mpr
      ⟨isIntact_of_mem_itemLexemes items, List.forall_mem_singleton.mpr rfl⟩⟩
  | .record members =>
    List.forall_mem_cons.mpr ⟨rfl, List.forall_mem_append.mpr
      ⟨isIntact_of_mem_memberLexemes members, List.forall_mem_singleton.mpr rfl⟩⟩

/-- The lexemes of a list are intact. -/
theorem isIntact_of_mem_itemLexemes : ∀ (items : List Tree),
    ∀ lexeme ∈ itemLexemes items, lexeme.isIntact = true
  | [] => nofun
  | [item] => isIntact_of_mem_lexemes item
  | item :: next :: items =>
    List.forall_mem_append.mpr ⟨isIntact_of_mem_lexemes item,
      List.forall_mem_cons.mpr ⟨rfl, isIntact_of_mem_itemLexemes (next :: items)⟩⟩

/-- The lexemes of a record are intact. -/
theorem isIntact_of_mem_memberLexemes : ∀ (members : List (String × Tree)),
    ∀ lexeme ∈ memberLexemes members, lexeme.isIntact = true
  | [] => nofun
  | [(_, value)] =>
    List.forall_mem_cons.mpr ⟨rfl, List.forall_mem_cons.mpr ⟨rfl, isIntact_of_mem_lexemes value⟩⟩
  | (_, value) :: next :: members =>
    List.forall_mem_cons.mpr ⟨rfl, List.forall_mem_cons.mpr ⟨rfl,
      List.forall_mem_append.mpr ⟨isIntact_of_mem_lexemes value,
        List.forall_mem_cons.mpr ⟨rfl, isIntact_of_mem_memberLexemes (next :: members)⟩⟩⟩⟩

end

/-- A text that spells a value has the draft of the value, and nothing after it. -/
theorem Spells.ofChars {t : Tree} {cs : List Char} (h : t.Spells cs) :
    Draft.ofChars cs = (t.draft, false) := by
  have hlexemes : Lexeme.ofChars cs = t.lexemes := Lexeme.ofChars_of_laid h t.lexemes_apart
  have hdraft : ofLexemes [] .value t.lexemes = (t.draft, []) := by
    simpa [put, Draft.Progress.goOn] using ofLexemes_lexemes t [] []
  simp [Draft.ofChars, hlexemes, hdraft]

/-- A text that has the draft of a value, and nothing after it, spells the value. -/
theorem spells_of_ofChars {t : Tree} {cs : List Char} (h : Draft.ofChars cs = (t.draft, false)) :
    t.Spells cs := by
  obtain ⟨hdraft, htrailing⟩ := Prod.mk.inj h
  have hnothing : (ofLexemes [] .value (Lexeme.ofChars cs)).2 = [] := by simpa using htrailing
  have hlexemes : Lexeme.ofChars cs = t.lexemes := by
    have hread := Draft.lexemes_of_ofLexemes (.value []) (Lexeme.ofChars cs) ⟨t, hdraft⟩
    rw [hdraft, hnothing, lexemes_draft] at hread
    simpa [Draft.stackLexemes] using hread
  have hlaid := Lexeme.laid_ofChars cs (hlexemes ▸ isIntact_of_mem_lexemes t)
  rwa [hlexemes] at hlaid

/-- The reader finds a value in a text exactly if the text spells it and it keeps the limits. -/
theorem read_iff {text : String} {t : Tree} :
    Tree.read text = .ok t ↔ t.Spells text.toList ∧ t.Bounded Draft.maxDepth := by
  constructor
  · intro h
    rcases hchars : Draft.ofChars text.toList with ⟨draft, trailing⟩
    unfold Tree.read at h
    rw [hchars] at h
    cases htree : draft.tree Draft.maxDepth with
    | error fault => simp only [htree] at h; cases h
    | ok value =>
      simp only [htree] at h
      cases trailing with
      | true => cases h
      | false =>
        cases h
        obtain ⟨rfl, hbounded⟩ := eq_draft_of_tree htree
        exact ⟨spells_of_ofChars hchars, hbounded⟩
  · rintro ⟨hspells, hbounded⟩
    rw [Tree.read, hspells.ofChars]
    dsimp only
    rw [tree_draft hbounded]
    rfl

end Tree

end PeerCall.Json
