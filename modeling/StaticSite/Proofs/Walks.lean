import Mathlib.Data.List.TakeWhile
import StaticSite.Build.SitePath
import StaticSite.Files.Disk

/-!
The walks along a path that end at an entry.

Proved here, for every tree:

* `walk_into`, `walk_induction`: what a step does, and induction on the links left and the steps;
* `walk_into_eq_ok`, `walk_ok_induction`: the steps of a walk that leads to a place, and induction on
  them;
* `walk_eq_ok_iff`: so the walks that end at an entry are those of `Walked`;
* `Walked.mono`: a walk in a tree is a walk in every tree with more entries;
* `Walked.append_stays`: slashes at the end of a path that leads to a directory lead nowhere else;
* `Walked.split`: a walk along one path after another passes by where the first leads;
* `Walked.names`: a walk along names that are no links goes down by these names;
* `locate_join`: so a path of such names leads down from where the path before it leads.

The facts about walks are by induction on the walk.
-/

namespace StaticSite

/-! ## Trees -/

namespace FileTree

/-- Every entry of the one is an entry of the other. -/
def Within (t t' : FileTree) : Prop := ∀ loc e, t.get? loc = some e → t'.get? loc = some e

theorem Within.isDirectory {t t' : FileTree} (h : t.Within t') {loc : Location}
    (hd : t.isDirectory loc = true) : t'.isDirectory loc = true := by
  unfold FileTree.isDirectory at hd ⊢
  cases hget : t.get? loc with
  | none =>
    rw [hget] at hd
    cases hd
  | some e =>
    rw [hget] at hd
    rw [h loc e hget]
    exact hd

/-- None of the places that some names lead down to is a link. -/
def NoLink (t : FileTree) (loc : Location) : List String → Prop
  | [] => True
  | n :: ns => (∀ target, t.get? (loc ++ [n]) ≠ some (.link target)) ∧ t.NoLink (loc ++ [n]) ns

end FileTree

/-! ## Steps -/

namespace Disk

variable {t t' : FileTree} {follow : Bool}

theorem walk_nil (t : FileTree) (r : Reach) (links : Nat) (loc : Location) :
    walk t r links loc [] = .ok loc := by
  cases links with
  | zero => rfl
  | succ links => rfl

theorem walk_stay (t : FileTree) (r : Reach) (links : Nat) (loc : Location) (rest : List Step) :
    walk t r links loc (.stay :: rest) =
      if t.isDirectory loc then walk t r links loc rest else .error .notADirectory := by
  cases links with
  | zero => rfl
  | succ links => rfl

theorem walk_up (t : FileTree) (r : Reach) (links : Nat) (loc : Location) (rest : List Step) :
    walk t r links loc (.up :: rest) =
      if t.isDirectory loc then walk t r links loc.dropLast rest else .error .notADirectory := by
  cases links with
  | zero => rfl
  | succ links => rfl

/-- Where the steps of a link begin. -/
def linkStart (target : String) (loc : Location) : Location :=
  if target.toList.head? == some '/' then [] else loc

/-- Follows a link, if there may be one more. -/
def jump (t : FileTree) (r : Reach) (links : Nat) (loc : Location) (xs : List Step) :
    Except OsError Location :=
  match links with
  | 0 => .error .tooManyLinks
  | links + 1 => walk t r links loc xs

theorem walk_into (t : FileTree) (r : Reach) (links : Nat) (loc : Location) (n : String)
    (rest : List Step) :
    walk t r links loc (.into n :: rest) =
      if !t.isDirectory loc then .error .notADirectory
      else if maxNameBytes < n.utf8ByteSize then .error .nameTooLong
      else
        match t.get? (loc ++ [n]) with
        | none => if rest.isEmpty && r.free then .ok (loc ++ [n]) else .error .notFound
        | some (.link target) =>
          if rest.isEmpty && !r.follow then .ok (loc ++ [n])
          else jump t r links (linkStart target loc) (steps target ++ rest)
        | some _ => walk t r links (loc ++ [n]) rest := by
  cases links with
  | zero => rfl
  | succ links => rfl

section

variable {r : Reach} {links : Nat} {loc : Location} {n target : String} {e : Entry}
  {rest : List Step}

theorem walk_into_entry (hd : t.isDirectory loc = true) (hn : n.utf8ByteSize ≤ maxNameBytes)
    (he : t.get? (loc ++ [n]) = some e) (hlink : ∀ target, e ≠ .link target) :
    walk t r links loc (.into n :: rest) = walk t r links (loc ++ [n]) rest := by
  rw [walk_into, if_neg (by simp [hd]), if_neg (Nat.not_lt_of_le hn), he]
  cases e with
  | link target => exact absurd rfl (hlink target)
  | file bytes => rfl
  | directory => rfl

/-- A link is followed, unless it is the last that the steps lead to. -/
theorem walk_into_link (hd : t.isDirectory loc = true) (hn : n.utf8ByteSize ≤ maxNameBytes)
    (he : t.get? (loc ++ [n]) = some (.link target)) (hfollow : rest ≠ [] ∨ r.follow = true) :
    walk t r links loc (.into n :: rest) =
      jump t r links (linkStart target loc) (steps target ++ rest) := by
  rw [walk_into, if_neg (by simp [hd]), if_neg (Nat.not_lt_of_le hn), he]
  dsimp only
  rw [if_neg]
  rwa [Bool.and_eq_true, not_and_or, List.isEmpty_iff, Bool.not_eq_true', Bool.not_eq_false]

end

/-- Induction on the links left, and then on the steps. -/
theorem walk_induction {P : Nat → Location → List Step → Prop}
    (nil : ∀ links loc, P links loc [])
    (stay : ∀ links loc rest, P links loc rest → P links loc (.stay :: rest))
    (up : ∀ links loc rest, P links loc.dropLast rest → P links loc (.up :: rest))
    (into : ∀ links loc n rest, P links (loc ++ [n]) rest →
      (∀ k, links = k + 1 → ∀ loc xs, P k loc xs) → P links loc (.into n :: rest))
    (links : Nat) (loc : Location) (xs : List Step) : P links loc xs := by
  have hsteps (links : Nat) (hlinks : ∀ k, links = k + 1 → ∀ loc xs, P k loc xs) (loc : Location)
      (xs : List Step) : P links loc xs := by
    induction xs generalizing loc with
    | nil => exact nil links loc
    | cons x rest ih =>
      cases x with
      | stay => exact stay links loc rest (ih loc)
      | up => exact up links loc rest (ih loc.dropLast)
      | into n => exact into links loc n rest (ih (loc ++ [n])) hlinks
  induction links generalizing loc xs with
  | zero => exact hsteps 0 nofun loc xs
  | succ links ih =>
    refine hsteps (links + 1) (fun k hk => ?_) loc xs
    obtain rfl := Nat.succ.inj hk
    exact ih

/-- A step into a name that leads on: the name is free and the last, or it is that of an entry which is
no link, or of a link that is left as it is or followed. -/
theorem walk_into_eq_ok {r : Reach} {links : Nat} {loc l : Location} {n : String} {rest : List Step}
    (h : walk t r links loc (.into n :: rest) = .ok l) :
    t.isDirectory loc = true ∧ n.utf8ByteSize ≤ maxNameBytes ∧
      (t.get? (loc ++ [n]) = none ∧ rest = [] ∧ r.free = true ∧ loc ++ [n] = l ∨
        (∃ e, t.get? (loc ++ [n]) = some e ∧ (∀ target, e ≠ .link target) ∧
          walk t r links (loc ++ [n]) rest = .ok l) ∨
        ∃ target, t.get? (loc ++ [n]) = some (.link target) ∧
          (rest = [] ∧ r.follow = false ∧ loc ++ [n] = l ∨
            (rest ≠ [] ∨ r.follow = true) ∧
              jump t r links (linkStart target loc) (steps target ++ rest) = .ok l)) := by
  rw [walk_into] at h
  split at h
  · cases h
  · next hd =>
    split at h
    · cases h
    · next hn =>
      refine ⟨by simpa using hd, Nat.le_of_not_lt hn, ?_⟩
      cases he : t.get? (loc ++ [n]) with
      | none =>
        rw [he] at h
        dsimp only at h
        split at h
        · next hlast =>
          rw [Bool.and_eq_true, List.isEmpty_iff] at hlast
          exact .inl ⟨rfl, hlast.1, hlast.2, Except.ok.inj h⟩
        · cases h
      | some e =>
        rw [he] at h
        cases e with
        | file bytes => exact .inr (.inl ⟨_, rfl, nofun, h⟩)
        | directory => exact .inr (.inl ⟨_, rfl, nofun, h⟩)
        | link target =>
          refine .inr (.inr ⟨target, rfl, ?_⟩)
          dsimp only at h
          split at h
          · next hlast =>
            rw [Bool.and_eq_true, List.isEmpty_iff, Bool.not_eq_true'] at hlast
            exact .inl ⟨hlast.1, hlast.2, Except.ok.inj h⟩
          · next hlast =>
            rw [Bool.and_eq_true, not_and_or, List.isEmpty_iff, Bool.not_eq_true',
              Bool.not_eq_false] at hlast
            exact .inr ⟨hlast, h⟩

/-- Induction on a walk that leads to a place, with a case for each kind of step. -/
theorem walk_ok_induction {r : Reach} {l : Location} {P : Nat → Location → List Step → Prop}
    (done : ∀ {links}, P links l [])
    (stay : ∀ {links loc rest}, t.isDirectory loc = true → P links loc rest →
      P links loc (.stay :: rest))
    (up : ∀ {links loc rest}, t.isDirectory loc = true → P links loc.dropLast rest →
      P links loc (.up :: rest))
    (into : ∀ {links loc n e rest}, t.isDirectory loc = true → n.utf8ByteSize ≤ maxNameBytes →
      t.get? (loc ++ [n]) = some e → (∀ target, e ≠ .link target) → P links (loc ++ [n]) rest →
        P links loc (.into n :: rest))
    (free : ∀ {links loc n}, t.isDirectory loc = true → n.utf8ByteSize ≤ maxNameBytes →
      t.get? (loc ++ [n]) = none → r.free = true → loc ++ [n] = l → P links loc [.into n])
    (last : ∀ {links loc n target}, t.isDirectory loc = true → n.utf8ByteSize ≤ maxNameBytes →
      t.get? (loc ++ [n]) = some (.link target) → r.follow = false → loc ++ [n] = l →
        P links loc [.into n])
    (jump : ∀ {links loc n target rest}, t.isDirectory loc = true → n.utf8ByteSize ≤ maxNameBytes →
      t.get? (loc ++ [n]) = some (.link target) → (rest ≠ [] ∨ r.follow = true) →
        P links (linkStart target loc) (steps target ++ rest) → P (links + 1) loc (.into n :: rest))
    {links : Nat} {loc : Location} {xs : List Step} (h : walk t r links loc xs = .ok l) :
    P links loc xs := by
  revert h
  refine walk_induction (P := fun links loc xs => walk t r links loc xs = .ok l → P links loc xs)
    ?_ ?_ ?_ ?_ links loc xs
  · intro links loc h
    rw [walk_nil] at h
    obtain rfl := Except.ok.inj h
    exact done
  · intro links loc rest ih h
    rw [walk_stay] at h
    split at h
    · exact stay ‹_› (ih h)
    · cases h
  · intro links loc rest ih h
    rw [walk_up] at h
    split at h
    · exact up ‹_› (ih h)
    · cases h
  · intro links loc n rest ih ihlink h
    obtain ⟨hd, hn, ⟨he, rfl, hfree, hl⟩ | ⟨e, he, hlink, h⟩ | ⟨target, he, hcases⟩⟩ :=
      walk_into_eq_ok h
    · exact free hd hn he hfree hl
    · exact into hd hn he hlink (ih h)
    · rcases hcases with ⟨rfl, hfollow, hl⟩ | ⟨hfollow, h⟩
      · exact last hd hn he hfollow hl
      · cases links with
        | zero => cases h
        | succ links => exact jump hd hn he hfollow (ihlink links rfl _ _ h)

/-! ## Walks -/

/-- Steps from a location lead to an entry, through so many links at most. A link that the last of
them leads to may stay unfollowed. -/
inductive Walked (t : FileTree) (follow : Bool) : Nat → Location → List Step → Location → Prop
  | done {links : Nat} {loc : Location} : Walked t follow links loc [] loc
  | stay {links : Nat} {loc l : Location} {rest : List Step} (hd : t.isDirectory loc = true)
      (h : Walked t follow links loc rest l) : Walked t follow links loc (.stay :: rest) l
  | up {links : Nat} {loc l : Location} {rest : List Step} (hd : t.isDirectory loc = true)
      (h : Walked t follow links loc.dropLast rest l) : Walked t follow links loc (.up :: rest) l
  | into {links : Nat} {loc l : Location} {n : String} {e : Entry} {rest : List Step}
      (hd : t.isDirectory loc = true) (hn : n.utf8ByteSize ≤ maxNameBytes)
      (he : t.get? (loc ++ [n]) = some e) (hlink : ∀ target, e ≠ .link target)
      (h : Walked t follow links (loc ++ [n]) rest l) :
      Walked t follow links loc (.into n :: rest) l
  | last {links : Nat} {loc : Location} {n target : String} (hd : t.isDirectory loc = true)
      (hn : n.utf8ByteSize ≤ maxNameBytes) (he : t.get? (loc ++ [n]) = some (.link target))
      (hfollow : follow = false) : Walked t follow links loc [.into n] (loc ++ [n])
  | jump {links : Nat} {loc l : Location} {n target : String} {rest : List Step}
      (hd : t.isDirectory loc = true) (hn : n.utf8ByteSize ≤ maxNameBytes)
      (he : t.get? (loc ++ [n]) = some (.link target)) (hfollow : rest ≠ [] ∨ follow = true)
      (h : Walked t follow links (if target.toList.head? == some '/' then [] else loc)
        (steps target ++ rest) l) : Walked t follow (links + 1) loc (.into n :: rest) l

theorem walk_eq_ok_iff {links : Nat} {loc l : Location} {xs : List Step} :
    walk t ⟨follow, false⟩ links loc xs = .ok l ↔ Walked t follow links loc xs l := by
  constructor
  · refine walk_ok_induction (P := fun links loc xs => Walked t follow links loc xs l)
      .done .stay .up .into ?_ ?_ .jump
    · intro links loc n _ _ _ hfree
      cases hfree
    · intro links loc n target hd hn he hfollow hl
      exact hl ▸ .last hd hn he hfollow
  · intro h
    induction h with
    | done => exact walk_nil t _ _ _
    | stay hd _ ih =>
      rw [walk_stay, if_pos hd]
      exact ih
    | up hd _ ih =>
      rw [walk_up, if_pos hd]
      exact ih
    | into hd hn he hlink _ ih =>
      rw [walk_into_entry hd hn he hlink]
      exact ih
    | last hd hn he hfollow =>
      rw [walk_into, if_neg (by simp [hd]), if_neg (Nat.not_lt_of_le hn), he, hfollow]
      rfl
    | jump hd hn he hfollow _ ih =>
      rw [walk_into_link hd hn he hfollow]
      exact ih

namespace Walked

variable {links : Nat} {loc l : Location} {xs ys : List Step}

theorem mono (h : Walked t follow links loc xs l) (ht : t.Within t') :
    Walked t' follow links loc xs l := by
  induction h with
  | done => exact .done
  | stay hd _ ih => exact .stay (ht.isDirectory hd) ih
  | up hd _ ih => exact .up (ht.isDirectory hd) ih
  | into hd hn he hlink _ ih => exact .into (ht.isDirectory hd) hn (ht _ _ he) hlink ih
  | last hd hn he hfollow => exact .last (ht.isDirectory hd) hn (ht _ _ he) hfollow
  | jump hd hn he hfollow _ ih =>
    exact .jump (ht.isDirectory hd) hn (ht _ _ he) hfollow ih

theorem unique {l' : Location} (h : Walked t follow links loc xs l)
    (h' : Walked t follow links loc xs l') : l = l' :=
  Except.ok.inj ((walk_eq_ok_iff.2 h).symm.trans (walk_eq_ok_iff.2 h'))

theorem append_stays (h : Walked t follow links loc xs l) (hl : t.isDirectory l = true) (k : Nat) :
    Walked t follow links loc (xs ++ List.replicate k .stay) l := by
  induction h with
  | @done links loc =>
    induction k with
    | zero => exact .done
    | succ k ih => exact .stay hl ih
  | stay hd _ ih => exact .stay hd (ih hl)
  | up hd _ ih => exact .up hd (ih hl)
  | into hd hn he hlink _ ih => exact .into hd hn he hlink (ih hl)
  | last hd hn he hfollow =>
    unfold FileTree.isDirectory at hl
    rw [he] at hl
    cases hl
  | jump hd hn he hfollow _ ih =>
    refine .jump hd hn he (hfollow.imp_left fun hne h => hne (List.append_eq_nil_iff.1 h).1) ?_
    have ih := ih hl
    rw [List.append_assoc] at ih
    exact ih

/-- On the way along two paths the link that the first ends with is followed. -/
theorem split (h : Walked t follow links loc (xs ++ ys) l) (hys : ys ≠ []) :
    ∃ mid links', Walked t true links loc xs mid ∧ Walked t follow links' mid ys l := by
  generalize hzs : xs ++ ys = zs at h
  induction h generalizing xs with
  | @done links loc => exact absurd (List.append_eq_nil_iff.1 hzs).2 hys
  | @stay links loc l rest hd h ih =>
    cases xs with
    | nil =>
      obtain rfl : ys = .stay :: rest := hzs
      exact ⟨loc, links, .done, .stay hd h⟩
    | cons x xs =>
      obtain ⟨rfl, hrest⟩ := List.cons.inj hzs
      obtain ⟨mid, links', hmid, hl⟩ := ih hrest
      exact ⟨mid, links', .stay hd hmid, hl⟩
  | @up links loc l rest hd h ih =>
    cases xs with
    | nil =>
      obtain rfl : ys = .up :: rest := hzs
      exact ⟨loc, links, .done, .up hd h⟩
    | cons x xs =>
      obtain ⟨rfl, hrest⟩ := List.cons.inj hzs
      obtain ⟨mid, links', hmid, hl⟩ := ih hrest
      exact ⟨mid, links', .up hd hmid, hl⟩
  | @into links loc l n e rest hd hn he hlink h ih =>
    cases xs with
    | nil =>
      obtain rfl : ys = .into n :: rest := hzs
      exact ⟨loc, links, .done, .into hd hn he hlink h⟩
    | cons x xs =>
      obtain ⟨rfl, hrest⟩ := List.cons.inj hzs
      obtain ⟨mid, links', hmid, hl⟩ := ih hrest
      exact ⟨mid, links', .into hd hn he hlink hmid, hl⟩
  | @last links loc n target hd hn he hfollow =>
    cases xs with
    | nil =>
      obtain rfl : ys = [.into n] := hzs
      exact ⟨loc, links, .done, .last hd hn he hfollow⟩
    | cons x xs => exact absurd (List.append_eq_nil_iff.1 (List.cons.inj hzs).2).2 hys
  | @jump links loc l n target rest hd hn he hfollow h ih =>
    cases xs with
    | nil =>
      obtain rfl : ys = .into n :: rest := hzs
      exact ⟨loc, links + 1, .done, .jump hd hn he hfollow h⟩
    | cons x xs =>
      obtain ⟨rfl, rfl⟩ := List.cons.inj hzs
      obtain ⟨mid, links', hmid, hl⟩ := ih (List.append_assoc (steps target) xs ys)
      exact ⟨mid, links', .jump hd hn he (.inr rfl) hmid, hl⟩

end Walked

/-- The names that steps go down by, if they do not go up. -/
def Step.names? : List Step → Option (List String)
  | [] => some []
  | .stay :: rest => names? rest
  | .up :: _ => none
  | .into n :: rest => (names? rest).map (n :: ·)

theorem Walked.names {links : Nat} {loc l : Location} {xs : List Step} {ns : List String}
    (h : Walked t follow links loc xs l) (hxs : Step.names? xs = some ns) (hns : t.NoLink loc ns) :
    l = loc ++ ns := by
  induction h generalizing ns with
  | done =>
    obtain rfl := Option.some.inj hxs
    exact (List.append_nil _).symm
  | stay _ _ ih => exact ih hxs hns
  | up => cases hxs
  | into _ _ _ _ _ ih =>
    obtain ⟨ns', hrest, rfl⟩ := Option.map_eq_some_iff.1 hxs
    rw [ih hrest hns.2, List.append_assoc]
    rfl
  | last _ _ he _ =>
    obtain ⟨ns', -, rfl⟩ := Option.map_eq_some_iff.1 hxs
    exact absurd he (hns.1 _)
  | jump _ _ he _ _ _ =>
    obtain ⟨ns', -, rfl⟩ := Option.map_eq_some_iff.1 hxs
    exact absurd he (hns.1 _)

end Disk

/-! ## Paths -/

theorem Text.splitOn_ne_nil (c : Char) (s : List Char) : splitOn c s ≠ [] := by
  cases s with
  | nil => exact List.cons_ne_nil _ _
  | cons d s =>
    unfold splitOn
    split
    · exact List.cons_ne_nil _ _
    · split
      · exact List.cons_ne_nil _ _
      · exact List.cons_ne_nil _ _

theorem Text.splitOn_append (c : Char) (a b : List Char) :
    splitOn c (a ++ c :: b) = splitOn c a ++ splitOn c b := by
  induction a with
  | nil => simp [splitOn]
  | cons d a ih =>
    by_cases h : d = c
    · simp [splitOn, h, ih]
    · simp only [List.cons_append, splitOn, if_neg h, ih]
      cases hp : splitOn c a with
      | nil => exact absurd hp (splitOn_ne_nil c a)
      | cons p ps => rfl

namespace Disk

open Text

/-- A path that goes on after a slash. -/
theorem steps_append (a b : List Char) :
    steps (String.ofList (a ++ '/' :: b)) =
      steps (String.ofList a) ++ (splitOn '/' b).map Step.ofPiece := by
  unfold steps
  rw [String.toList_ofList, String.toList_ofList, splitOn_append]
  cases hp : splitOn '/' a with
  | nil => exact absurd hp (splitOn_ne_nil '/' a)
  | cons p ps =>
    cases p with
    | nil => simp
    | cons c cs => simp

theorem steps_slashes (a : List Char) (k : Nat) :
    steps (String.ofList (a ++ List.replicate k '/')) =
      steps (String.ofList a) ++ List.replicate k .stay := by
  induction k with
  | zero => simp
  | succ k ih =>
    rw [List.replicate_succ', ← List.append_assoc, steps_append, ih, List.append_assoc,
      List.replicate_succ']
    rfl

/-- The location that the steps of a path start from. -/
def start (d : Disk) (p : Path) : Location := if p.isAbsolute then [] else d.cwd

theorem walked_of_locate {d : Disk} {follow : Bool} {p : Path} {l : Location}
    (h : d.locate ⟨follow, false⟩ p = .ok l) :
    Walked d.tree follow maxLinks (d.start p) (steps p.text) l := by
  unfold locate at h
  unfold start
  split at h
  · cases h
  · split at h
    · cases h
    · split at h
      · cases h
      · split at h
        · rw [if_pos ‹_›]
          exact walk_eq_ok_iff.1 h
        · rw [if_neg ‹_›]
          split at h
          · exact walk_eq_ok_iff.1 h
          · cases h

/-- Only slashes at the end are cut off, and never all of a path. -/
theorem exists_slashes (p : Path) :
    ∃ k, p.text.toList = (trimSlashes p).text.toList ++ List.replicate k '/' ∧
      (trimSlashes p).isAbsolute = p.isAbsolute := by
  unfold trimSlashes
  split
  · exact ⟨0, (List.append_nil _).symm, rfl⟩
  split
  · exact ⟨0, (List.append_nil _).symm, rfl⟩
  · next cs hne =>
    have hcut := List.takeWhile_append_dropWhile (p := (· == '/')) (l := p.text.toList.reverse)
    have htext := congrArg List.reverse hcut
    rw [List.reverse_append, List.reverse_reverse] at htext
    have hslashes : (p.text.toList.reverse.takeWhile (· == '/')).reverse =
        List.replicate (p.text.toList.reverse.takeWhile (· == '/')).length '/' := by
      refine List.eq_replicate_iff.2 ⟨List.length_reverse, fun c hc => ?_⟩
      have hslash := List.mem_takeWhile_imp (List.mem_reverse.1 hc)
      exact eq_of_beq hslash
    rw [hslashes] at htext
    refine ⟨(p.text.toList.reverse.takeWhile (· == '/')).length, ?_, ?_⟩
    · rw [String.toList_ofList]
      exact htext.symm
    · have hhead := congrArg List.head? htext
      rw [List.head?_append, Option.or_of_isSome (List.isSome_head?.2 hne)] at hhead
      unfold Path.isAbsolute
      rw [String.toList_ofList, hhead]

/-- The slashes that are cut off stay in a directory. -/
theorem exists_stays (p : Path) :
    ∃ k, steps p.text = steps (trimSlashes p).text ++ List.replicate k .stay ∧
      (trimSlashes p).isAbsolute = p.isAbsolute := by
  obtain ⟨k, htext, habs⟩ := exists_slashes p
  have hsteps := steps_slashes (trimSlashes p).text.toList k
  rw [← htext, String.ofList_toList, String.ofList_toList] at hsteps
  exact ⟨k, hsteps, habs⟩

theorem ofPiece_cases (p : List Char) :
    Path.Component.ofPiece? p = none ∧ Step.ofPiece p = .stay ∨
    Path.Component.ofPiece? p = some .parent ∧ Step.ofPiece p = .up ∨
    ∃ n, Path.Component.ofPiece? p = some (.name n) ∧ Step.ofPiece p = .into n := by
  by_cases hnil : p = []
  · subst hnil
    exact .inl ⟨rfl, rfl⟩
  by_cases hdot : p = ['.']
  · subst hdot
    exact .inl ⟨rfl, rfl⟩
  by_cases hdots : p = ['.', '.']
  · subst hdots
    exact .inr (.inl ⟨rfl, rfl⟩)
  refine .inr (.inr ⟨String.ofList p, ?_, ?_⟩)
  · unfold Path.Component.ofPiece?
    split
    · exact absurd rfl hnil
    · exact absurd rfl hdot
    · exact absurd rfl hdots
    · rfl
  · unfold Step.ofPiece
    split
    · exact absurd rfl hnil
    · exact absurd rfl hdot
    · exact absurd rfl hdots
    · rfl

/-- Pieces that stand for names lead down by these names. -/
theorem names?_of_siteNames {ps : List (List Char)} {names : List String}
    (h : Path.siteNames (ps.filterMap Path.Component.ofPiece?) = .ok names) :
    Step.names? (ps.map Step.ofPiece) = some names := by
  induction ps generalizing names with
  | nil => exact congrArg some (Except.ok.inj h)
  | cons p ps ih =>
    rw [List.filterMap_cons] at h
    rw [List.map_cons]
    rcases ofPiece_cases p with ⟨hp, hstep⟩ | ⟨hp, hstep⟩ | ⟨n, hp, hstep⟩
    · rw [hp] at h
      rw [hstep]
      exact ih h
    · rw [hp] at h
      cases h
    · rw [hp] at h
      rw [hstep]
      cases hrest : Path.siteNames (ps.filterMap Path.Component.ofPiece?) with
      | error e =>
        simp only [Path.siteNames, hrest] at h
        cases h
      | ok rest =>
        simp only [Path.siteNames, hrest] at h
        obtain rfl := Except.ok.inj h
        exact congrArg (Option.map (n :: ·)) (ih hrest)

/-- A path of names is not absolute, and it leads down by these names. -/
theorem names?_of_components {p : Path} {names : List String}
    (h : Path.siteNames p.components = .ok names) :
    p.isAbsolute = false ∧
      Step.names? ((splitOn '/' p.text.toList).map Step.ofPiece) = some names := by
  unfold Path.components Path.pieces at h
  cases hps : splitOn '/' p.text.toList with
  | nil => exact absurd hps (splitOn_ne_nil _ _)
  | cons first rest =>
    rw [hps] at h
    dsimp only at h
    cases habs : p.isAbsolute with
    | true =>
      rw [habs] at h
      cases h
    | false =>
      refine ⟨rfl, names?_of_siteNames ?_⟩
      rw [habs, if_neg Bool.false_ne_true] at h
      split at h
      · next hfirst =>
        rw [hfirst]
        exact h
      · rw [List.filterMap_cons]
        cases hpiece : Path.Component.ofPiece? first with
        | none =>
          rw [hpiece] at h
          exact h
        | some c =>
          rw [hpiece] at h
          exact h

/-- A relative path after another one. -/
theorem exists_join {p q : Path} (hp : p.text.toList ≠ []) (hq : q.isAbsolute = false) :
    ∃ a, (p.join q).text.toList = a ++ '/' :: q.text.toList ∧
      (p.text.toList = a ∨ p.text.toList = a ++ ['/']) := by
  unfold Path.join
  rw [hq, if_neg Bool.false_ne_true]
  split
  · next hend =>
    have hlast : p.text.toList.getLast? = some '/' := by
      rcases Bool.or_eq_true_iff.1 hend with hempty | hlast
      · exact absurd (by simpa using hempty) hp
      · exact eq_of_beq hlast
    obtain ⟨a, ha⟩ := List.getLast?_eq_some_iff.1 hlast
    refine ⟨a, ?_, .inr ha⟩
    rw [String.toList_append, ha, List.append_assoc]
    rfl
  · refine ⟨p.text.toList, ?_, .inl rfl⟩
    rw [String.toList_append, String.toList_append, List.append_assoc]
    rfl

theorem text_ne_nil_of_locate {d : Disk} {r : Reach} {p : Path} {l : Location}
    (h : d.locate r p = .ok l) : p.text.toList ≠ [] := by
  intro hnil
  unfold locate at h
  rw [if_pos (by rw [String.isEmpty_iff]; exact String.toList_eq_nil_iff.1 hnil)] at h
  cases h

/-- **Names.** A path of names that are no links leads down from where the path before it leads. A
slash at the end of this leads nowhere else. -/
theorem locate_join {d : Disk} {follow : Bool} {p q : Path} {names : List String}
    {site top : Location} (hp : d.locate ⟨true, false⟩ p = .ok site)
    (hq : Path.siteNames q.components = .ok names) (hlinks : d.tree.NoLink site names)
    (htop : d.locate ⟨follow, false⟩ (p.join q) = .ok top) : top = site ++ names := by
  obtain ⟨hrelative, hnames⟩ := names?_of_components hq
  have hne := text_ne_nil_of_locate hp
  obtain ⟨a, hjoin, ha⟩ := exists_join hne hrelative
  have hsteps : steps (p.join q).text =
      steps (String.ofList a) ++ (splitOn '/' q.text.toList).map Step.ofPiece := by
    rw [← steps_append, ← hjoin, String.ofList_toList]
  have hstart : d.start (p.join q) = d.start p := by
    have habs : (p.join q).isAbsolute = p.isAbsolute := by
      unfold Path.isAbsolute
      rcases ha with ha | ha
      · rw [hjoin, ← ha, List.head?_append, Option.or_of_isSome (List.isSome_head?.2 hne)]
      · rw [hjoin, ha, List.append_cons, List.head?_append,
          Option.or_of_isSome (List.isSome_head?.2 (ha ▸ hne))]
    unfold start
    rw [habs]
  have hwalk := walked_of_locate htop
  rw [hsteps, hstart] at hwalk
  obtain ⟨mid, links, hmid, hrest⟩ :=
    hwalk.split fun h => splitOn_ne_nil _ _ (List.map_eq_nil_iff.1 h)
  have hsite := walked_of_locate hp
  have hmid : site = mid := by
    rcases ha with ha | ha
    · rw [← ha, String.ofList_toList] at hmid
      exact hsite.unique hmid
    · have hslash : steps p.text = steps (String.ofList a) ++ [.stay] := by
        have h := steps_append a []
        rwa [← ha, String.ofList_toList] at h
      rw [hslash] at hsite
      obtain ⟨mid', links', hmid', hstay⟩ := hsite.split (List.cons_ne_nil _ _)
      obtain rfl := hmid.unique hmid'
      have hnone : Step.names? [.stay] = some [] := rfl
      exact (hstay.names hnone trivial).trans (List.append_nil _)
  rw [hmid]
  exact hrest.names hnames (hmid ▸ hlinks)

end Disk

end StaticSite
