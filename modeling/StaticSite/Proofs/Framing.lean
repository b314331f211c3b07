import StaticSite.Proofs.Places

/-!
Disks that differ below one directory.

Following a path ends at a place, or is stopped at one: at the first that is free, or that is no
directory where one is needed. A path that is not stopped below a directory does not see what changes
there, as long as directories stay and there are no links. Proved here, for every disk:

* `walkEnd_of_walk`: a path ends at the place that it leads to;
* `walk_agree`, `locate_agree`: where two disks agree outside a directory, the paths that are not
  stopped below it lead to the same places;
* `entry?_agree`, `readText_agree`, `canonicalize_agree`: so what is read there is the same.
-/

namespace StaticSite

namespace Disk

variable {t t' : FileTree} {d d' d'' : Disk} {p : Path} {out : Location}

/-! ## Where a path ends -/

/-- The place where following the steps ends or is stopped. -/
def followEnd (t : FileTree) (onLink : Location → List Step → Location) (loc : Location) :
    List Step → Location
  | [] => loc
  | .stay :: rest => if t.isDirectory loc then followEnd t onLink loc rest else loc
  | .up :: rest => if t.isDirectory loc then followEnd t onLink loc.dropLast rest else loc
  | .into n :: rest =>
    if !t.isDirectory loc then loc
    else if maxNameBytes < n.utf8ByteSize then loc
    else
      match t.get? (loc ++ [n]) with
      | none => loc ++ [n]
      | some (.link target) => onLink (linkStart target loc) (steps target ++ rest)
      | some _ => followEnd t onLink (loc ++ [n]) rest

/-- The place where following the steps ends or is stopped, through so many links at most. -/
def walkEnd (t : FileTree) : Nat → Location → List Step → Location
  | 0 => followEnd t fun loc _ => loc
  | links + 1 => followEnd t (walkEnd t links)

/-- The place where following a path ends or is stopped. -/
def lastPlace (d : Disk) (p : Path) : Location := walkEnd d.tree maxLinks (d.start p) (steps p.text)

def jumpEnd (t : FileTree) (links : Nat) (loc : Location) (xs : List Step) : Location :=
  match links with
  | 0 => loc
  | links + 1 => walkEnd t links loc xs

theorem walkEnd_nil (t : FileTree) (links : Nat) (loc : Location) : walkEnd t links loc [] = loc := by
  cases links with
  | zero => rfl
  | succ links => rfl

theorem walkEnd_stay (t : FileTree) (links : Nat) (loc : Location) (rest : List Step) :
    walkEnd t links loc (.stay :: rest) =
      if t.isDirectory loc then walkEnd t links loc rest else loc := by
  cases links with
  | zero => rfl
  | succ links => rfl

theorem walkEnd_up (t : FileTree) (links : Nat) (loc : Location) (rest : List Step) :
    walkEnd t links loc (.up :: rest) =
      if t.isDirectory loc then walkEnd t links loc.dropLast rest else loc := by
  cases links with
  | zero => rfl
  | succ links => rfl

theorem walkEnd_into (t : FileTree) (links : Nat) (loc : Location) (n : String) (rest : List Step) :
    walkEnd t links loc (.into n :: rest) =
      if !t.isDirectory loc then loc
      else if maxNameBytes < n.utf8ByteSize then loc
      else
        match t.get? (loc ++ [n]) with
        | none => loc ++ [n]
        | some (.link target) => jumpEnd t links (linkStart target loc) (steps target ++ rest)
        | some _ => walkEnd t links (loc ++ [n]) rest := by
  cases links with
  | zero => rfl
  | succ links => rfl

section

variable {links : Nat} {loc : Location} {n target : String} {e : Entry} {rest : List Step}

theorem walkEnd_into_entry (hd : t.isDirectory loc = true) (hn : n.utf8ByteSize ≤ maxNameBytes)
    (he : t.get? (loc ++ [n]) = some e) (hlink : ∀ target, e ≠ .link target) :
    walkEnd t links loc (.into n :: rest) = walkEnd t links (loc ++ [n]) rest := by
  rw [walkEnd_into, if_neg (by simp [hd]), if_neg (Nat.not_lt_of_le hn), he]
  cases e with
  | link target => exact absurd rfl (hlink target)
  | file bytes => rfl
  | directory => rfl

theorem walkEnd_into_link (hd : t.isDirectory loc = true) (hn : n.utf8ByteSize ≤ maxNameBytes)
    (he : t.get? (loc ++ [n]) = some (.link target)) :
    walkEnd t links loc (.into n :: rest) =
      jumpEnd t links (linkStart target loc) (steps target ++ rest) := by
  rw [walkEnd_into, if_neg (by simp [hd]), if_neg (Nat.not_lt_of_le hn), he]

end

/-- Nothing is followed on from where there is no directory. -/
theorem walkEnd_of_not_directory {loc : Location} (h : t.isDirectory loc = false) (links : Nat)
    (xs : List Step) : walkEnd t links loc xs = loc := by
  cases xs with
  | nil => exact walkEnd_nil t links loc
  | cons x rest =>
    cases x with
    | stay => rw [walkEnd_stay, if_neg (Bool.eq_false_iff.1 h)]
    | up => rw [walkEnd_up, if_neg (Bool.eq_false_iff.1 h)]
    | into n => rw [walkEnd_into, if_pos (by simp [h])]

/-- A path ends at the place that it leads to, unless there is a link there that is not followed. -/
theorem walkEnd_or_link_of_walk {r : Reach} {links : Nat} {loc l : Location} {xs : List Step}
    (h : walk t r links loc xs = .ok l) :
    walkEnd t links loc xs = l ∨ r.follow = false ∧ ∃ target, t.get? l = some (.link target) := by
  refine walk_ok_induction (P := fun links loc xs => walkEnd t links loc xs = l ∨
    r.follow = false ∧ ∃ target, t.get? l = some (.link target)) ?_ ?_ ?_ ?_ ?_ ?_ ?_ h
  · exact .inl (walkEnd_nil t _ l)
  · intro links loc rest hd ih
    rwa [walkEnd_stay, if_pos hd]
  · intro links loc rest hd ih
    rwa [walkEnd_up, if_pos hd]
  · intro links loc n e rest hd hn he hlink ih
    rwa [walkEnd_into_entry hd hn he hlink]
  · intro links loc n hd hn he _ hl
    rw [walkEnd_into, if_neg (by simp [hd]), if_neg (Nat.not_lt_of_le hn), he]
    exact .inl hl
  · intro links loc n target _ _ he hfollow hl
    exact .inr ⟨hfollow, target, hl ▸ he⟩
  · intro links loc n target rest hd hn he _ ih
    rw [walkEnd_into_link hd hn he]
    exact ih

theorem walkEnd_of_walk {free : Bool} {links : Nat} {loc l : Location} {xs : List Step}
    (h : walk t ⟨true, free⟩ links loc xs = .ok l) : walkEnd t links loc xs = l :=
  (walkEnd_or_link_of_walk h).resolve_right nofun

/-! ## Disks that agree outside a directory -/

theorem isBelow_concat {loc : Location} (h : out <+: loc) (n : String) :
    FileTree.isBelow out (loc ++ [n]) = true := by
  rw [FileTree.isBelow_iff]
  refine ⟨h.trans (List.prefix_append _ _), fun heq => ?_⟩
  have hlength := h.length_le
  have hlonger := congrArg List.length heq
  rw [List.length_append, List.length_singleton] at hlonger
  omega

/-- There are no links below a directory. -/
def NoLinkBelow (t : FileTree) (out : Location) : Prop :=
  ∀ loc target, FileTree.isBelow out loc = true → t.get? loc ≠ some (.link target)

theorem NoLinkBelow.of_entries (h : ∀ e ∈ t.entries, ∀ target, e.2 ≠ .link target) :
    NoLinkBelow t out := by
  intro loc target hbelow hget
  have hne : loc ≠ [] := by
    rintro rfl
    cases hget
  exact h _ (FileTree.mem_entries hne hget) target rfl

/-- Two disks differ below a directory at most. The second still has the directories of the first,
and there are no links below the directory in either. -/
structure Agree (out : Location) (d d' : Disk) : Prop where
  cwd : d'.cwd = d.cwd
  outside : ∀ loc, FileTree.isBelow out loc = false → d'.tree.get? loc = d.tree.get? loc
  names : ∀ dir, ¬ out <+: dir → d'.tree.names dir = d.tree.names dir
  directories : ∀ loc, d.tree.isDirectory loc = true → d'.tree.isDirectory loc = true
  noLink : NoLinkBelow d.tree out
  noLink' : NoLinkBelow d'.tree out

namespace Agree

theorem refl (h : NoLinkBelow d.tree out) : Agree out d d :=
  ⟨rfl, fun _ _ => rfl, fun _ _ => rfl, fun _ h => h, h, h⟩

theorem trans (h : Agree out d d') (h' : Agree out d' d'') : Agree out d d'' where
  cwd := h'.cwd.trans h.cwd
  outside loc hloc := (h'.outside loc hloc).trans (h.outside loc hloc)
  names dir hdir := (h'.names dir hdir).trans (h.names dir hdir)
  directories loc hd := h'.directories loc (h.directories loc hd)
  noLink := h.noLink
  noLink' := h'.noLink'

theorem apart (h : Agree out d d') {loc : Location} (hloc : ¬ out <+: loc) :
    d'.tree.get? loc = d.tree.get? loc := h.outside loc (FileTree.isBelow_of_not_prefix hloc)

theorem isDirectory_eq (h : Agree out d d') {loc : Location}
    (hloc : FileTree.isBelow out loc = false) :
    d'.tree.isDirectory loc = d.tree.isDirectory loc := by
  unfold FileTree.isDirectory
  rw [h.outside loc hloc]

/-- Steps are stopped where there is no directory, so what they start from is one on both disks or on
neither. -/
theorem isDirectory_of_walkEnd (h : Agree out d d') {links : Nat} {loc : Location} {xs : List Step}
    (hend : FileTree.isBelow out (walkEnd d.tree links loc xs) = false) :
    d'.tree.isDirectory loc = d.tree.isDirectory loc := by
  cases hd : d.tree.isDirectory loc with
  | true => exact h.directories loc hd
  | false =>
    rw [walkEnd_of_not_directory hd] at hend
    rw [h.isDirectory_eq hend, hd]

end Agree

/-- **Framing.** Steps that are not stopped below the directory lead to the same place, or fail in
the same way. A file stops them, so those that come to one have not come below the directory. -/
theorem walk_agree (h : Agree out d d') (r : Reach) {links : Nat} {loc : Location} {xs : List Step}
    (hend : FileTree.isBelow out (walkEnd d.tree links loc xs) = false) :
    walk d'.tree r links loc xs = walk d.tree r links loc xs ∧
      walkEnd d'.tree links loc xs = walkEnd d.tree links loc xs := by
  revert hend
  refine walk_induction (P := fun links loc xs =>
    FileTree.isBelow out (walkEnd d.tree links loc xs) = false →
      walk d'.tree r links loc xs = walk d.tree r links loc xs ∧
        walkEnd d'.tree links loc xs = walkEnd d.tree links loc xs) ?_ ?_ ?_ ?_ links loc xs
  · intro links loc _
    exact ⟨by rw [walk_nil, walk_nil], by rw [walkEnd_nil, walkEnd_nil]⟩
  · intro links loc rest ih hend
    rw [walk_stay, walk_stay, walkEnd_stay, walkEnd_stay, h.isDirectory_of_walkEnd hend]
    by_cases hd : d.tree.isDirectory loc = true
    · rw [walkEnd_stay, if_pos hd] at hend
      simp only [if_pos hd]
      exact ih hend
    · simp only [if_neg hd, and_self]
  · intro links loc rest ih hend
    rw [walk_up, walk_up, walkEnd_up, walkEnd_up, h.isDirectory_of_walkEnd hend]
    by_cases hd : d.tree.isDirectory loc = true
    · rw [walkEnd_up, if_pos hd] at hend
      simp only [if_pos hd]
      exact ih hend
    · simp only [if_neg hd, and_self]
  · intro links loc n rest ih ihlink hend
    rw [walk_into, walk_into, walkEnd_into, walkEnd_into, h.isDirectory_of_walkEnd hend]
    rw [walkEnd_into] at hend
    cases hd : d.tree.isDirectory loc with
    | false => exact ⟨rfl, rfl⟩
    | true =>
      rw [hd] at hend
      by_cases hn : maxNameBytes < n.utf8ByteSize
      · simp [hn]
      · simp only [hn, Bool.not_true, Bool.false_eq_true, if_false] at hend ⊢
        cases hget : d.tree.get? (loc ++ [n]) with
        | none =>
          rw [hget] at hend
          rw [h.outside _ hend, hget]
          exact ⟨rfl, rfl⟩
        | some e =>
          rw [hget] at hend
          cases e with
          | directory =>
            rw [FileTree.isDirectory_iff.1 (h.directories _ (FileTree.isDirectory_iff.2 hget))]
            exact ih hend
          | file bytes =>
            have hnot : d.tree.isDirectory (loc ++ [n]) = false := by
              unfold FileTree.isDirectory
              rw [hget]
              rfl
            have hplace : FileTree.isBelow out (loc ++ [n]) = false := by
              rwa [walkEnd_of_not_directory hnot] at hend
            rw [h.outside _ hplace, hget]
            exact ih hend
          | link target =>
            have hplace : FileTree.isBelow out (loc ++ [n]) = false :=
              Bool.eq_false_iff.2 fun hbelow => h.noLink _ target hbelow hget
            rw [h.outside _ hplace, hget]
            dsimp only at hend ⊢
            cases links with
            | zero => exact ⟨rfl, rfl⟩
            | succ k =>
              obtain ⟨hwalk, hwalkEnd⟩ := ihlink k rfl _ _ hend
              have hjump : jump d'.tree r (k + 1) (linkStart target loc) (steps target ++ rest) =
                jump d.tree r (k + 1) (linkStart target loc) (steps target ++ rest) := hwalk
              rw [hjump]
              exact ⟨rfl, hwalkEnd⟩

section

variable (h : Agree out d d') (hp : FileTree.isBelow out (d.lastPlace p) = false)
include h hp

theorem lastPlace_agree : d'.lastPlace p = d.lastPlace p := by
  unfold lastPlace
  rw [start_eq h.cwd]
  exact (walk_agree h ⟨true, false⟩ hp).2

theorem locate_agree (r : Reach) : d'.locate r p = d.locate r p := by
  have hwalk : walk d'.tree r maxLinks (d.start p) (steps p.text) = _ := (walk_agree h r hp).1
  have hstart : d'.tree.isDirectory (d.start p) = d.tree.isDirectory (d.start p) :=
    h.isDirectory_of_walkEnd hp
  unfold locate
  unfold start at hwalk hstart
  cases hrelative : p.isAbsolute with
  | true =>
    rw [hrelative, if_pos rfl] at hwalk
    rw [if_pos rfl, if_pos rfl, hwalk]
  | false =>
    rw [hrelative, if_neg Bool.false_ne_true] at hwalk hstart
    rw [if_neg Bool.false_ne_true, if_neg Bool.false_ne_true, h.cwd, hstart, hwalk]

/-- What a path leads to is the same entry. -/
theorem get?_agree {l : Location} (hlocate : d.locate ⟨true, false⟩ p = .ok l) :
    d'.tree.get? l = d.tree.get? l := by
  have hend : d.lastPlace p = l := walkEnd_of_walk (locate_eq_ok_iff.1 hlocate).2
  exact h.outside l (hend ▸ hp)

theorem entry?_agree : d'.entry? p = d.entry? p := by
  unfold entry?
  rw [locate_agree h hp]
  cases hlocate : d.locate ⟨true, false⟩ p with
  | error e => rfl
  | ok l => exact get?_agree h hp hlocate

theorem isFile_agree : d'.isFile p = d.isFile p := by
  unfold isFile
  rw [entry?_agree h hp]

theorem readBytes_agree : d'.readBytes p = d.readBytes p := by
  unfold readBytes
  rw [locate_agree h hp]
  cases hlocate : d.locate ⟨true, false⟩ p with
  | error e => rfl
  | ok l =>
    dsimp only [bind, Except.bind]
    rw [get?_agree h hp hlocate]

theorem readText_agree : d'.readText p = d.readText p := by
  unfold readText
  rw [readBytes_agree h hp]

theorem canonicalize_agree : d'.canonicalize p = d.canonicalize p := by
  unfold canonicalize
  rw [locate_agree h hp]

end

end Disk

end StaticSite
