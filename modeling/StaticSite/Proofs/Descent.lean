import Mathlib.Data.List.Induction
import StaticSite.Proofs.Framing
import StaticSite.Proofs.Spelling

/-!
Paths that lead down from a directory.

Where a path leads hangs on its components alone, and a path that goes on from the components of
another by names leads down from there. Proved here, for every disk:

* `walk_moves`, `walked_moves_iff`: steps that stay do not count;
* `walk_append`: a walk goes on from where its first steps lead;
* `LeadsTo.congr`, `LeadsTo.agree`: a path leads to a directory by its components, and whatever
  changes below that directory;
* `locate_down`: a path that goes on from there by names leads down, if there are no links below.
-/

namespace StaticSite

namespace Disk

variable {t t' : FileTree} {d d' : Disk} {p q : Path} {out : Location} {names : List String}

/-! ## Steps that stay -/

/-- Nothing is followed on from where there is no directory. -/
theorem walk_of_not_directory {loc : Location} (h : t.isDirectory loc = false) (r : Reach)
    (links : Nat) {xs : List Step} (hne : xs ≠ []) :
    walk t r links loc xs = .error .notADirectory := by
  cases xs with
  | nil => exact absurd rfl hne
  | cons x rest =>
    cases x with
    | stay => rw [walk_stay, if_neg (Bool.eq_false_iff.1 h)]
    | up => rw [walk_up, if_neg (Bool.eq_false_iff.1 h)]
    | into n => rw [walk_into, if_pos (by simp [h])]

theorem moves_eq_nil_iff {xs : List Step} (h : xs.getLast? ≠ some .stay) : moves xs = [] ↔ xs = [] := by
  constructor
  · intro hnil
    rcases List.eq_nil_or_concat xs with rfl | ⟨init, x, hxs⟩
    · rfl
    · rw [List.concat_eq_append] at hxs
      subst hxs
      rw [moves_append, List.append_eq_nil_iff] at hnil
      cases x with
      | stay => exact absurd List.getLast?_concat h
      | up => cases hnil.2
      | into n => cases hnil.2
  · rintro rfl
    rfl

theorem isEmpty_moves {xs : List Step} (h : xs.getLast? ≠ some .stay) (ys : List Step) :
    (ys ++ moves xs).isEmpty = (ys ++ xs).isEmpty := by
  rw [Bool.eq_iff_iff, List.isEmpty_iff, List.isEmpty_iff, List.append_eq_nil_iff,
    List.append_eq_nil_iff, moves_eq_nil_iff h]

theorem getLast?_of_cons {x : Step} {xs : List Step} (h : (x :: xs).getLast? ≠ some .stay) :
    xs.getLast? ≠ some .stay := by
  cases xs with
  | nil => exact nofun
  | cons y ys => rwa [List.getLast?_cons_cons] at h

/-- Steps that stay do not count, unless they are the last: where there is no directory the step
after them fails in the same way. -/
theorem walk_moves (t : FileTree) (r : Reach) (links : Nat) (loc : Location) (ys : List Step)
    {xs : List Step} (h : xs.getLast? ≠ some .stay) :
    walk t r links loc (ys ++ moves xs) = walk t r links loc (ys ++ xs) := by
  generalize hzs : ys ++ xs = zs
  revert ys xs
  refine walk_induction (P := fun links loc zs => ∀ (ys : List Step) {xs : List Step},
    xs.getLast? ≠ some .stay → ys ++ xs = zs →
      walk t r links loc (ys ++ moves xs) = walk t r links loc zs) ?_ ?_ ?_ ?_ links loc zs
  · intro links loc ys xs _ hzs
    obtain ⟨rfl, rfl⟩ := List.append_eq_nil_iff.1 hzs
    rfl
  · intro links loc rest ih ys xs h hzs
    cases ys with
    | cons y ys =>
      obtain ⟨rfl, rfl⟩ := List.cons.inj hzs
      rw [List.cons_append, walk_stay, walk_stay, ih ys h rfl]
    | nil =>
      obtain rfl : xs = .stay :: rest := hzs
      have hrest := getLast?_of_cons h
      have hih := ih [] hrest rfl
      rw [walk_stay, List.nil_append]
      split
      · exact hih
      · next hd =>
        refine walk_of_not_directory (Bool.eq_false_iff.2 hd) r links fun hnil => ?_
        rw [moves, moves_eq_nil_iff hrest] at hnil
        subst hnil
        exact h rfl
  · intro links loc rest ih ys xs h hzs
    cases ys with
    | cons y ys =>
      obtain ⟨rfl, rfl⟩ := List.cons.inj hzs
      rw [List.cons_append, walk_up, walk_up, ih ys h rfl]
    | nil =>
      obtain rfl : xs = .up :: rest := hzs
      have hih := ih [] (getLast?_of_cons h) rfl
      rw [List.nil_append, moves, walk_up, walk_up, ← hih, List.nil_append]
  · intro links loc n rest ih ihlink ys xs h hzs
    have hstep {rest' : List Step} (hempty : rest'.isEmpty = rest.isEmpty)
        (hwalk : walk t r links (loc ++ [n]) rest' = walk t r links (loc ++ [n]) rest)
        (hjump : ∀ target, jump t r links (linkStart target loc) (steps target ++ rest') =
          jump t r links (linkStart target loc) (steps target ++ rest)) :
        walk t r links loc (.into n :: rest') = walk t r links loc (.into n :: rest) := by
      rw [walk_into, walk_into, hempty, hwalk]
      simp only [hjump]
    have hjump (ys' : List Step) {xs' : List Step} (h' : xs'.getLast? ≠ some .stay)
        (target : String) :
        jump t r links (linkStart target loc) (steps target ++ (ys' ++ moves xs')) =
          jump t r links (linkStart target loc) (steps target ++ (ys' ++ xs')) := by
      cases links with
      | zero => rfl
      | succ k =>
        have hk := ihlink k rfl (linkStart target loc) (steps target ++ (ys' ++ xs'))
          (steps target ++ ys') h' (List.append_assoc _ _ _)
        rw [List.append_assoc] at hk
        exact hk
    cases ys with
    | cons y ys =>
      obtain ⟨rfl, rfl⟩ := List.cons.inj hzs
      exact hstep (isEmpty_moves h ys) (ih ys h rfl) (hjump ys h)
    | nil =>
      obtain rfl : xs = .into n :: rest := hzs
      have hrest := getLast?_of_cons h
      exact hstep (isEmpty_moves hrest []) (ih [] hrest rfl) (hjump [] hrest)

/-- A list of steps, cut before the last ones that stay. -/
theorem exists_trimmed (xs : List Step) :
    ∃ init k, xs = init ++ List.replicate k .stay ∧ init.getLast? ≠ some .stay := by
  induction xs using List.reverseRecOn with
  | nil => exact ⟨[], 0, rfl, nofun⟩
  | append_singleton xs x ih =>
    by_cases hx : x = .stay
    · obtain ⟨init, k, rfl, hinit⟩ := ih
      refine ⟨init, k + 1, ?_, hinit⟩
      rw [hx, List.replicate_succ', List.append_assoc]
    · refine ⟨xs ++ [x], 0, (List.append_nil _).symm, ?_⟩
      rw [List.getLast?_concat]
      exact fun h => hx (Option.some.inj h)

theorem moves_stays (k : Nat) : moves (List.replicate k .stay) = [] := by
  induction k with
  | zero => rfl
  | succ k ih => exact ih

theorem walked_stays {links : Nat} {loc l : Location} {follow : Bool} {k : Nat}
    (h : Walked t follow links loc (List.replicate k .stay) l) : l = loc := by
  induction k with
  | zero =>
    cases h
    rfl
  | succ k ih =>
    cases h with
    | stay _ h => exact ih h

/-- Which steps stay is all the same on the way to a directory. -/
theorem walked_moves_iff {links : Nat} {loc l : Location} {xs : List Step}
    (hl : t.isDirectory l = true) :
    Walked t true links loc (moves xs) l ↔ Walked t true links loc xs l := by
  obtain ⟨init, k, rfl, hinit⟩ := exists_trimmed xs
  have hmoves := walk_moves t ⟨true, false⟩ links loc [] hinit
  rw [moves_append, moves_stays, List.append_nil]
  constructor
  · intro h
    refine Walked.append_stays (walk_eq_ok_iff.1 ?_) hl k
    exact hmoves.symm.trans (walk_eq_ok_iff.2 h)
  · intro h
    refine walk_eq_ok_iff.1 (hmoves.trans (walk_eq_ok_iff.2 ?_))
    cases k with
    | zero => rwa [List.replicate_zero, List.append_nil] at h
    | succ k =>
      obtain ⟨mid, links', hmid, hstays⟩ := h.split (by simp)
      rw [walked_stays hstays]
      exact hmid

/-- A walk goes on from where its first steps lead, with the links that are left. -/
theorem walk_append {links : Nat} {loc mid : Location} {xs ys : List Step}
    (h : Walked t true links loc xs mid) (hys : ys ≠ []) :
    ∃ left, ∀ r, walk t r links loc (xs ++ ys) = walk t r left mid ys := by
  induction h with
  | @done links loc => exact ⟨links, fun _ => rfl⟩
  | stay hd _ ih =>
    obtain ⟨left, hleft⟩ := ih
    exact ⟨left, fun r => by rw [List.cons_append, walk_stay, if_pos hd, hleft]⟩
  | up hd _ ih =>
    obtain ⟨left, hleft⟩ := ih
    exact ⟨left, fun r => by rw [List.cons_append, walk_up, if_pos hd, hleft]⟩
  | into hd hn he hlink _ ih =>
    obtain ⟨left, hleft⟩ := ih
    exact ⟨left, fun r => by rw [List.cons_append, walk_into_entry hd hn he hlink, hleft]⟩
  | last _ _ _ hlast => cases hlast
  | @jump links loc l n target rest hd hn he _ _ ih =>
    obtain ⟨left, hleft⟩ := ih
    refine ⟨left, fun r => ?_⟩
    have hne : rest ++ ys ≠ [] := List.append_ne_nil_of_right_ne_nil _ hys
    rw [List.cons_append, walk_into_link hd hn he (.inl hne), ← hleft r, List.append_assoc]
    rfl

/-- And it ends where it ends from there. -/
theorem walkEnd_append {links : Nat} {loc mid : Location} {xs : List Step}
    (h : Walked t true links loc xs mid) (ys : List Step) :
    ∃ left, walkEnd t links loc (xs ++ ys) = walkEnd t left mid ys := by
  induction h with
  | @done links loc => exact ⟨links, rfl⟩
  | stay hd _ ih =>
    obtain ⟨left, hleft⟩ := ih
    exact ⟨left, by rw [List.cons_append, walkEnd_stay, if_pos hd, hleft]⟩
  | up hd _ ih =>
    obtain ⟨left, hleft⟩ := ih
    exact ⟨left, by rw [List.cons_append, walkEnd_up, if_pos hd, hleft]⟩
  | into hd hn he hlink _ ih =>
    obtain ⟨left, hleft⟩ := ih
    exact ⟨left, by rw [List.cons_append, walkEnd_into_entry hd hn he hlink, hleft]⟩
  | last _ _ _ hlast => cases hlast
  | @jump links loc l n target rest hd hn he _ _ ih =>
    obtain ⟨left, hleft⟩ := ih
    refine ⟨left, ?_⟩
    rw [List.cons_append, walkEnd_into_link hd hn he, ← hleft, List.append_assoc]
    rfl

/-! ## Directories that paths lead to -/

theorem directory_of_walked {links : Nat} {follow : Bool} {loc l : Location} {xs : List Step}
    (h : Walked t follow links loc xs l) (hl : t.isDirectory l = true) : t.isDirectory loc = true := by
  cases h with
  | done => exact hl
  | stay hd _ | up hd _ | into hd _ _ _ _ | last hd _ _ _ | jump hd _ _ _ _ => exact hd

/-- The steps of a path lead to a directory. The empty path stands for the working directory. -/
structure LeadsTo (d : Disk) (p : Path) (out : Location) : Prop where
  walked : Walked d.tree true maxLinks (d.start p) (steps p.text) out
  directory : d.tree.isDirectory out = true

theorem isAbsolute_down (h : p.components = q.components ++ names.map .name) :
    p.isAbsolute = q.isAbsolute := by
  rw [isAbsolute_eq, isAbsolute_eq, h]
  cases q.components with
  | cons c cs => rfl
  | nil =>
    cases names with
    | nil => rfl
    | cons n names => rfl

theorem start_down (d : Disk) (h : p.components = q.components ++ names.map .name) :
    d.start p = d.start q := by
  unfold start
  rw [isAbsolute_down h]

namespace LeadsTo

theorem of_locate (h : d.locate ⟨true, false⟩ p = .ok out) (hd : d.tree.isDirectory out = true) :
    d.LeadsTo p out := ⟨walked_of_locate h, hd⟩

theorem moves (h : d.LeadsTo p out) :
    Walked d.tree true maxLinks (d.start p) (p.components.filterMap move?) out := by
  rw [← moves_steps]
  exact (walked_moves_iff h.directory).2 h.walked

/-- Only the components of a path count. -/
theorem congr (h : d.LeadsTo q out) (hp : p.components = q.components) : d.LeadsTo p out := by
  refine ⟨(walked_moves_iff h.directory).1 ?_, h.directory⟩
  have hdown : p.components = q.components ++ ([] : List String).map .name := by simpa using hp
  have hstart : d.start p = d.start q := start_down d hdown
  rw [moves_steps, hp, hstart]
  exact h.moves

theorem origin (h : d.LeadsTo p out) : p.isAbsolute = true ∨ d.tree.isDirectory d.cwd = true := by
  have hstart := directory_of_walked h.walked h.directory
  unfold start at hstart
  split at hstart
  · exact .inl ‹_›
  · exact .inr hstart

theorem accepts (h : d.LeadsTo p out) (hne : p.text ≠ "") (hfits : p.Fits) : d.Accepts p :=
  ⟨by simpa using hne, hfits.noNull, hfits.short, h.origin⟩

theorem isDirectory (h : d.LeadsTo p out) (hne : p.text ≠ "") (hfits : p.Fits) :
    d.isDirectory p = true := by
  have hlocate : d.locate ⟨true, false⟩ p = .ok out :=
    locate_eq_ok_iff.2 ⟨h.accepts hne hfits, walk_eq_ok_iff.2 h.walked⟩
  unfold Disk.isDirectory entry?
  rw [hlocate]
  exact h.directory

theorem unique (h : d.LeadsTo p out) {out' : Location} (h' : d.LeadsTo p out') : out = out' :=
  h.walked.unique h'.walked

/-- What changes below a directory leaves the paths that do not lead below it. -/
theorem agree_outside {loc : Location} (h : d.LeadsTo p loc) (hagree : Agree out d d')
    (hloc : FileTree.isBelow out loc = false) : d'.LeadsTo p loc := by
  refine ⟨?_, hagree.directories loc h.directory⟩
  have hwalk := walk_eq_ok_iff.2 h.walked
  have hend : FileTree.isBelow out (walkEnd d.tree maxLinks (d.start p) (steps p.text)) = false := by
    rwa [walkEnd_of_walk hwalk]
  rw [start_eq hagree.cwd]
  exact walk_eq_ok_iff.1 ((walk_agree hagree _ hend).1.trans hwalk)

/-- What changes below a directory leaves the paths to it. -/
theorem agree (h : d.LeadsTo p out) (hagree : Agree out d d') : d'.LeadsTo p out :=
  h.agree_outside hagree (Bool.eq_false_iff.2 fun hbelow => (FileTree.isBelow_iff.1 hbelow).2 rfl)

end LeadsTo

/-! ## Names below a directory -/

/-- Goes down from a location by names, to a free place at most. -/
def descend (t : FileTree) (free : Bool) (loc : Location) : List String → Except OsError Location
  | [] => .ok loc
  | n :: rest =>
    if !t.isDirectory loc then .error .notADirectory
    else if maxNameBytes < n.utf8ByteSize then .error .nameTooLong
    else
      match t.get? (loc ++ [n]) with
      | none => if rest.isEmpty && free then .ok (loc ++ [n]) else .error .notFound
      | some _ => descend t free (loc ++ [n]) rest

/-- Where there are no links, names lead down. -/
theorem walk_names (hlinks : NoLinkBelow t out) {loc : Location} (hloc : out <+: loc) (r : Reach)
    (links : Nat) (names : List String) :
    walk t r links loc (names.map Step.into) = descend t r.free loc names := by
  induction names generalizing loc with
  | nil => exact walk_nil t r links loc
  | cons n rest ih =>
    have hbelow := isBelow_concat hloc n
    have hrest := ih (hloc.trans (List.prefix_append loc [n]))
    have hempty : (rest.map Step.into).isEmpty = rest.isEmpty := List.isEmpty_map
    rw [List.map_cons, walk_into, hempty]
    unfold descend
    cases hget : t.get? (loc ++ [n]) with
    | none => rfl
    | some e =>
      cases e with
      | link target => exact absurd hget (hlinks _ target hbelow)
      | file bytes =>
        rw [hrest]
      | directory =>
        rw [hrest]

/-- Where there are no links, names end on the way down. -/
theorem walkEnd_names (hlinks : NoLinkBelow t out) {loc : Location} (hloc : out <+: loc)
    (links : Nat) (names : List String) :
    ∃ pre, pre <+: names ∧ walkEnd t links loc (names.map Step.into) = loc ++ pre := by
  induction names generalizing loc with
  | nil => exact ⟨[], List.prefix_rfl, by rw [List.map_nil, walkEnd_nil, List.append_nil]⟩
  | cons n rest ih =>
    have hstopped : ∃ pre, pre <+: n :: rest ∧ loc = loc ++ pre :=
      ⟨[], List.nil_prefix, (List.append_nil loc).symm⟩
    have hfree : ∃ pre, pre <+: n :: rest ∧ loc ++ [n] = loc ++ pre :=
      ⟨[n], List.cons_prefix_cons.2 ⟨rfl, List.nil_prefix⟩, rfl⟩
    have hnext : ∃ pre, pre <+: n :: rest ∧
        walkEnd t links (loc ++ [n]) (rest.map Step.into) = loc ++ pre := by
      obtain ⟨pre, hpre, hend⟩ := ih (hloc.trans (List.prefix_append loc [n]))
      refine ⟨n :: pre, List.cons_prefix_cons.2 ⟨rfl, hpre⟩, ?_⟩
      rw [hend, ← List.append_cons]
    rw [List.map_cons, walkEnd_into]
    split
    · exact hstopped
    · split
      · exact hstopped
      · cases hget : t.get? (loc ++ [n]) with
        | none => exact hfree
        | some e =>
          cases e with
          | link target => exact absurd hget (hlinks _ target (isBelow_concat hloc n))
          | file bytes => exact hnext
          | directory => exact hnext

theorem getLast?_steps (h : p.Tidy) : (steps p.text).getLast? ≠ some .stay := by
  have hsteps : ∀ ps : List (List Char), ps ≠ [] → (∀ piece, ps.getLast? = some piece →
      Path.Component.ofPiece? piece ≠ none) → (ps.map Step.ofPiece).getLast? ≠ some .stay := by
    intro ps hne hlast
    obtain ⟨piece, hpiece⟩ := Option.isSome_iff_exists.1 (List.getLast?_isSome.2 hne)
    rw [List.getLast?_map, hpiece]
    rcases ofPiece_cases piece with ⟨hnone, -⟩ | ⟨-, hstep⟩ | ⟨n, -, hstep⟩
    · exact absurd hnone (hlast piece hpiece)
    · rw [Option.map_some, hstep]
      exact nofun
    · rw [Option.map_some, hstep]
      exact nofun
  unfold Path.Tidy Path.pieces at h
  unfold steps
  split
  · next rest hrest =>
    rw [hrest] at h
    cases rest with
    | nil => exact absurd rfl (h [] rfl)
    | cons piece rest =>
      refine hsteps _ (List.cons_ne_nil _ _) fun last hlast => h last ?_
      rwa [List.getLast?_cons_cons]
  · exact hsteps _ (Text.splitOn_ne_nil _ _) h

/-- A path that goes on from a directory by names is followed to there, and then goes on. -/
theorem exists_walk_down (hout : d.LeadsTo q out)
    (hp : p.components = q.components ++ names.map .name) (hne : names ≠ []) (htidy : p.Tidy)
    (hfits : p.Fits) :
    ∃ left, ∀ r, d.locate r p = walk d.tree r left out (names.map Step.into) := by
  have htext : p.text ≠ "" := by
    intro hempty
    obtain ⟨text⟩ := p
    obtain rfl : text = "" := hempty
    have hnil : Path.components ⟨""⟩ = [] := rfl
    rw [hnil] at hp
    exact hne (List.map_eq_nil_iff.1 (List.append_eq_nil_iff.1 hp.symm).2)
  have haccepts : d.Accepts p := by
    refine ⟨by simpa using htext, hfits.noNull, hfits.short, ?_⟩
    rw [isAbsolute_down hp]
    exact hout.origin
  have hmoves : moves (steps p.text) = q.components.filterMap move? ++ names.map Step.into := by
    rw [moves_steps, hp, List.filterMap_append, List.filterMap_map]
    congr 1
    exact congrFun (List.filterMap_eq_map (f := Step.into)) names
  have hinto : names.map Step.into ≠ [] := fun hnil => hne (List.map_eq_nil_iff.1 hnil)
  obtain ⟨left, hleft⟩ := walk_append hout.moves hinto
  refine ⟨left, fun r => ?_⟩
  have hwalk := walk_moves d.tree r maxLinks (d.start p) [] (getLast?_steps htidy)
  rw [List.nil_append, List.nil_append] at hwalk
  rw [haccepts.locate_eq, ← hwalk, hmoves, start_down d hp, hleft]

/-- **Descent.** A path that goes on from a directory by names leads down from there. -/
theorem locate_down (hout : d.LeadsTo q out) (hlinks : NoLinkBelow d.tree out)
    (hp : p.components = q.components ++ names.map .name) (hne : names ≠ []) (htidy : p.Tidy)
    (hfits : p.Fits) (r : Reach) : d.locate r p = descend d.tree r.free out names := by
  obtain ⟨left, hleft⟩ := exists_walk_down hout hp hne htidy hfits
  rw [hleft, walk_names hlinks List.prefix_rfl]

theorem isDirectory_down (hout : d.LeadsTo q out) (hlinks : NoLinkBelow d.tree out)
    (hp : p.components = q.components ++ names.map .name) (hne : names ≠ []) (htidy : p.Tidy)
    (hfits : p.Fits) :
    d.isDirectory p = match descend d.tree false out names with
      | .ok l => d.tree.isDirectory l
      | .error _ => false := by
  unfold isDirectory entry?
  rw [locate_down hout hlinks hp hne htidy hfits]
  cases descend d.tree false out names with
  | ok l => rfl
  | error e => rfl

end Disk

end StaticSite
