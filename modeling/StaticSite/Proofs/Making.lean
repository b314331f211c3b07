import StaticSite.Proofs.Descent
import StaticSite.Proofs.Housing

/-!
Making directories below a directory.

Proved here, for every disk, where a path leads to a directory without links below:

* `makeDown_concat`: what comes of names, from what comes of all but the last;
* `get?_makeDown`, `makeDown_agree`: directories are made where there was nothing, and only there;
* `createFirst_below`, `createDirectories_below`: making the directories of a path below makes those
  that are missing on the way down, or fails at what is in the way, by induction on the names;
* `createDirectories_agree`: so whatever comes of it, nothing changes elsewhere.
-/

namespace StaticSite

namespace Disk

variable {t t' : FileTree} {d d' : Disk} {p q : Path} {out : Location} {names : List String}

/-! ## Making directories below a directory -/

/-- Makes the directories that are missing on the way down by names. -/
def makeDown (t : FileTree) (loc : Location) : List String → FileTree × Except OsError Unit
  | [] => (t, .ok ())
  | n :: rest =>
    if maxNameBytes < n.utf8ByteSize then (t, .error .nameTooLong)
    else
      match t.get? (loc ++ [n]) with
      | none => makeDown (t.insert (loc ++ [n]) .directory) (loc ++ [n]) rest
      | some .directory => makeDown t (loc ++ [n]) rest
      | some _ => (t, .error (if rest.isEmpty then .fileExists else .notADirectory))

/-- What is on the way fails in another way than what is at the end. -/
def onTheWay : OsError → OsError
  | .fileExists => .notADirectory
  | e => e

theorem makeDown_concat (t : FileTree) (loc : Location) (names : List String) (n : String) :
    makeDown t loc (names ++ [n]) =
      match (makeDown t loc names).2 with
      | .ok _ => makeDown (makeDown t loc names).1 (loc ++ names) [n]
      | .error e => ((makeDown t loc names).1, .error (onTheWay e)) := by
  induction names generalizing t loc with
  | nil => simp [makeDown]
  | cons m rest ih =>
    rw [List.cons_append, makeDown, makeDown]
    by_cases hm : maxNameBytes < m.utf8ByteSize
    · simp [hm, onTheWay]
    · simp only [hm, if_false]
      have happend : loc ++ [m] ++ rest = loc ++ m :: rest := List.append_cons loc m rest ▸ rfl
      cases hget : t.get? (loc ++ [m]) with
      | none =>
        dsimp only
        rw [ih, happend]
      | some e =>
        cases e with
        | directory =>
          dsimp only
          rw [ih, happend]
        | file bytes =>
          cases rest with
          | nil => simp [onTheWay]
          | cons k rest => simp [onTheWay]
        | link target =>
          cases rest with
          | nil => simp [onTheWay]
          | cons k rest => simp [onTheWay]

theorem descend_of_not_directory {loc : Location} (h : t.isDirectory loc = false) (free : Bool)
    (hne : names ≠ []) : descend t free loc names = .error .notADirectory := by
  cases names with
  | nil => exact absurd rfl hne
  | cons n rest =>
    unfold descend
    rw [if_pos (by simp [h])]

/-- Names that lead to a place have only directories before it, and at most it is missing. -/
theorem makeDown_of_descend {loc l : Location} (hne : names ≠ []) (hd : t.isDirectory loc = true)
    (h : descend t true loc names = .ok l) :
    l = loc ++ names ∧ makeDown t loc names =
      match t.get? l with
      | none => (t.insert l .directory, .ok ())
      | some .directory => (t, .ok ())
      | some _ => (t, .error .fileExists) := by
  induction names generalizing loc with
  | nil => exact absurd rfl hne
  | cons n rest ih =>
    unfold descend at h
    rw [if_neg (by simp [hd])] at h
    split at h
    · cases h
    · next hn =>
      unfold makeDown
      rw [if_neg hn]
      cases hget : t.get? (loc ++ [n]) with
      | none =>
        rw [hget] at h
        dsimp only at h
        split at h
        · next hrest =>
          obtain rfl := Except.ok.inj h
          obtain rfl : rest = [] := by simpa using hrest
          exact ⟨rfl, by rw [hget]; rfl⟩
        · cases h
      | some e =>
        rw [hget] at h
        dsimp only at h
        cases rest with
        | nil =>
          obtain rfl := Except.ok.inj h
          refine ⟨rfl, ?_⟩
          rw [hget]
          cases e with
          | directory => rfl
          | file bytes => rfl
          | link target => rfl
        | cons m rest =>
          have hdir : t.get? (loc ++ [n]) = some .directory := by
            rw [← FileTree.isDirectory_iff]
            by_contra hnot
            rw [descend_of_not_directory (Bool.eq_false_iff.2 hnot) true (List.cons_ne_nil _ _)] at h
            cases h
          obtain ⟨hl, hmade⟩ := ih (List.cons_ne_nil _ _) (FileTree.isDirectory_iff.2 hdir) h
          obtain rfl := Option.some.inj (hget.symm.trans hdir)
          exact ⟨hl.trans (List.append_assoc _ _ _), hmade⟩

theorem descend_of_found {loc l : Location} (h : descend t true loc names = .ok l)
    (hl : (t.get? l).isSome = true) : descend t false loc names = .ok l := by
  induction names generalizing loc with
  | nil => exact h
  | cons n rest ih =>
    unfold descend at h ⊢
    split at h
    · cases h
    · rw [if_neg ‹_›]
      split at h
      · cases h
      · rw [if_neg ‹_›]
        cases hget : t.get? (loc ++ [n]) with
        | some e =>
          rw [hget] at h
          exact ih h
        | none =>
          rw [hget] at h
          dsimp only at h
          split at h
          · obtain rfl := Except.ok.inj h
            rw [hget] at hl
            cases hl
          · cases h

/-- Names that are stopped by more than a missing directory make none. -/
theorem makeDown_of_descend_error {loc : Location} {e : OsError} (hd : t.isDirectory loc = true)
    (h : descend t true loc names = .error e) (he : e ≠ .notFound) :
    makeDown t loc names = (t, .error e) ∧ descend t false loc names = .error e := by
  induction names generalizing loc with
  | nil => cases h
  | cons n rest ih =>
    unfold descend at h ⊢
    rw [if_neg (by simp [hd])] at h ⊢
    unfold makeDown
    by_cases hn : maxNameBytes < n.utf8ByteSize
    · rw [if_pos hn] at h ⊢
      rw [if_pos hn]
      obtain rfl := Except.error.inj h
      exact ⟨rfl, rfl⟩
    · rw [if_neg hn] at h ⊢
      rw [if_neg hn]
      cases hget : t.get? (loc ++ [n]) with
      | none =>
        rw [hget] at h
        dsimp only at h
        split at h
        · cases h
        · exact absurd (Except.error.inj h).symm he
      | some entry =>
        rw [hget] at h
        dsimp only at h ⊢
        cases rest with
        | nil => cases h
        | cons m rest =>
          cases hdir : t.isDirectory (loc ++ [n]) with
          | true =>
            obtain rfl := Option.some.inj (hget.symm.trans (FileTree.isDirectory_iff.1 hdir))
            exact ih hdir h
          | false =>
            rw [descend_of_not_directory hdir true (List.cons_ne_nil _ _)] at h
            obtain rfl := Except.error.inj h
            refine ⟨?_, descend_of_not_directory hdir false (List.cons_ne_nil _ _)⟩
            cases entry with
            | directory =>
              rw [FileTree.isDirectory_iff.2 hget] at hdir
              cases hdir
            | file bytes => rfl
            | link target => rfl

/-- Where nothing is on the way, nothing but a long name stops the making of directories. -/
theorem makeDown_of_free {loc : Location} (h : ∀ rest, rest ≠ [] → t.get? (loc ++ rest) = none)
    (names : List String) : (makeDown t loc names).2 ≠ .error .fileExists := by
  induction names generalizing t loc with
  | nil => exact nofun
  | cons n rest ih =>
    unfold makeDown
    rw [h [n] (List.cons_ne_nil _ _)]
    split
    · exact nofun
    · refine ih fun ms hms => ?_
      rw [FileTree.get?_insert, if_neg, ← List.append_cons]
      · exact h _ (List.cons_ne_nil _ _)
      · rintro ⟨heq, -⟩
        exact hms (by simpa using heq)

theorem makeDown_of_notFound (ht : Housed t) {loc : Location} {n : String}
    (h : descend t true loc (names ++ [n]) = .error .notFound) :
    (makeDown t loc names).2 ≠ .error .fileExists := by
  induction names generalizing loc with
  | nil => exact nofun
  | cons m rest ih =>
    rw [List.cons_append] at h
    unfold descend at h
    split at h
    · cases h
    · split at h
      · cases h
      · next hm =>
        unfold makeDown
        rw [if_neg hm]
        cases hget : t.get? (loc ++ [m]) with
        | none =>
          refine makeDown_of_free (fun ms hms => ?_) rest
          rw [FileTree.get?_insert, if_neg]
          · exact ht.get?_append hget ms
          · rintro ⟨heq, -⟩
            exact hms (by simpa using heq)
        | some e =>
          rw [hget] at h
          dsimp only at h
          cases hdir : t.isDirectory (loc ++ [m]) with
          | true =>
            obtain rfl := Option.some.inj (hget.symm.trans (FileTree.isDirectory_iff.1 hdir))
            exact ih h
          | false =>
            rw [descend_of_not_directory hdir true (by simp)] at h
            cases h

/-! ## What is there after making directories -/

theorem get?_makeDown (t : FileTree) (loc : Location) (names : List String) (l : Location) :
    (makeDown t loc names).1.get? l = t.get? l ∨
      t.get? l = none ∧ (makeDown t loc names).1.get? l = some .directory ∧
        ∃ pre, pre ≠ [] ∧ pre <+: names ∧ l = loc ++ pre := by
  induction names generalizing t loc with
  | nil => exact .inl rfl
  | cons n rest ih =>
    have hstep {t' : FileTree} (h : (makeDown t' (loc ++ [n]) rest).1.get? l = t'.get? l ∨
        t'.get? l = none ∧ (makeDown t' (loc ++ [n]) rest).1.get? l = some .directory ∧
          ∃ pre, pre ≠ [] ∧ pre <+: rest ∧ l = loc ++ [n] ++ pre) :
        (makeDown t' (loc ++ [n]) rest).1.get? l = t'.get? l ∨
          t'.get? l = none ∧ (makeDown t' (loc ++ [n]) rest).1.get? l = some .directory ∧
            ∃ pre, pre ≠ [] ∧ pre <+: n :: rest ∧ l = loc ++ pre := by
      refine h.imp_right ?_
      rintro ⟨hnone, hnew, pre, -, hpre, rfl⟩
      refine ⟨hnone, hnew, n :: pre, List.cons_ne_nil _ _, ?_, (List.append_cons _ _ _).symm⟩
      exact List.cons_prefix_cons.2 ⟨rfl, hpre⟩
    unfold makeDown
    split
    · exact .inl rfl
    · cases hget : t.get? (loc ++ [n]) with
      | none =>
        by_cases hl : l = loc ++ [n]
        · subst hl
          refine .inr ⟨hget, ?_, [n], List.cons_ne_nil _ _, by simp, rfl⟩
          have hself : (t.insert (loc ++ [n]) .directory).get? (loc ++ [n]) = some .directory :=
            FileTree.get?_insert_self hget
          rcases ih (t.insert (loc ++ [n]) .directory) (loc ++ [n]) with hsame | ⟨hnone, -⟩
          · exact hsame.trans hself
          · cases hself.symm.trans hnone
        · have hother : (t.insert (loc ++ [n]) .directory).get? l = t.get? l := by
            rw [FileTree.get?_insert, if_neg fun h => hl h.1]
          have hrest := hstep (ih (t.insert (loc ++ [n]) .directory) (loc ++ [n]))
          rwa [hother] at hrest
      | some e =>
        cases e with
        | directory => exact hstep (ih t (loc ++ [n]))
        | file bytes => exact .inl rfl
        | link target => exact .inl rfl

theorem isDirectory_insert_directory {place loc : Location} (h : t.isDirectory loc = true) :
    (t.insert place .directory).isDirectory loc = true := by
  rw [FileTree.isDirectory_iff] at h ⊢
  rw [FileTree.get?_insert]
  split
  · rfl
  · exact h

theorem names_insert_below {dir place : Location} (hdir : ¬ out <+: dir) (hplace : out <+: place)
    {n : String} {e : Entry} : (t.insert (place ++ [n]) e).names dir = t.names dir := by
  refine FileTree.names_insert ?_
  rw [List.dropLast_concat]
  rintro rfl
  exact hdir hplace

theorem names_makeDown {dir loc : Location} (hdir : ¬ out <+: dir) (hloc : out <+: loc)
    (t : FileTree) (names : List String) : (makeDown t loc names).1.names dir = t.names dir := by
  induction names generalizing t loc with
  | nil => rfl
  | cons n rest ih =>
    have hnext := hloc.trans (List.prefix_append loc [n])
    unfold makeDown
    split
    · rfl
    · split
      · rw [ih hnext, names_insert_below hdir hloc]
      · exact ih hnext t
      · rfl

theorem makeDown_agree (hlinks : NoLinkBelow d.tree out) (names : List String) :
    Agree out d { d with tree := (makeDown d.tree out names).1 } where
  cwd := rfl
  outside loc hloc := by
    rcases get?_makeDown d.tree out names loc with hsame | ⟨-, -, pre, hne, -, rfl⟩
    · exact hsame
    · have hbelow : FileTree.isBelow out (out ++ pre) = true := by
        rw [FileTree.isBelow_iff]
        exact ⟨List.prefix_append _ _, fun h => hne (by simpa using h)⟩
      cases hloc.symm.trans hbelow
  names dir hdir := names_makeDown hdir List.prefix_rfl d.tree names
  directories loc hd := by
    rw [FileTree.isDirectory_iff] at hd ⊢
    rcases get?_makeDown d.tree out names loc with hsame | ⟨-, hnew, -⟩
    · exact hsame.trans hd
    · exact hnew
  noLink := hlinks
  noLink' loc target hbelow hget := by
    dsimp only at hget
    rcases get?_makeDown d.tree out names loc with hsame | ⟨-, hnew, -⟩
    · exact hlinks loc target hbelow (hsame.symm.trans hget)
    · cases hnew.symm.trans hget

/-- The names lead down through directories. -/
structure Clear (t : FileTree) (loc : Location) (names : List String) : Prop where
  directory : ∀ pre, pre <+: names → t.isDirectory (loc ++ pre) = true
  short : ∀ n ∈ names, n.utf8ByteSize ≤ maxNameBytes

theorem Clear.next {loc : Location} {n : String} (h : Clear t loc (n :: names)) :
    Clear t (loc ++ [n]) names := by
  refine ⟨fun pre hpre => ?_, fun m hm => h.short m (List.mem_cons_of_mem _ hm)⟩
  rw [← List.append_cons]
  exact h.directory (n :: pre) (List.cons_prefix_cons.2 ⟨rfl, hpre⟩)

theorem descend_append (free : Bool) {loc : Location} (h : Clear t loc names) (rest : List String) :
    descend t free loc (names ++ rest) = descend t free (loc ++ names) rest := by
  induction names generalizing loc with
  | nil => rw [List.nil_append, List.append_nil]
  | cons n names ih =>
    have hd := h.directory [] List.nil_prefix
    have hn := h.directory [n] (by simp)
    have hshort := h.short n List.mem_cons_self
    rw [List.append_nil] at hd
    rw [List.cons_append]
    conv_lhs => unfold descend
    rw [if_neg (by simp [hd]), if_neg (Nat.not_lt_of_le hshort), FileTree.isDirectory_iff.1 hn,
      ih h.next, ← List.append_cons]

theorem makeDown_of_clear {loc : Location} (h : Clear t loc names) :
    makeDown t loc names = (t, .ok ()) := by
  induction names generalizing loc with
  | nil => rfl
  | cons n names ih =>
    unfold makeDown
    rw [if_neg (Nat.not_lt_of_le (h.short n List.mem_cons_self)),
      FileTree.isDirectory_iff.1 (h.directory [n] (by simp))]
    exact ih h.next

theorem descend_last {loc : Location} (h : t.isDirectory loc = true) (n : String) :
    descend t true loc [n] =
      if maxNameBytes < n.utf8ByteSize then .error .nameTooLong else .ok (loc ++ [n]) := by
  unfold descend
  rw [if_neg (by simp [h])]
  split
  · rfl
  · cases t.get? (loc ++ [n]) with
    | none => rfl
    | some e => rfl

/-- In a directory there is a place for every name, if the name is not too long. -/
theorem descend_one {loc : Location} (h : t.isDirectory loc = true) {n : String} :
    descend t true loc [n] ≠ .error .notFound := by
  rw [descend_last h]
  split
  · simp
  · simp

theorem makeDown_clear {loc : Location} (hd : t.isDirectory loc = true)
    (h : (makeDown t loc names).2 = .ok ()) : Clear (makeDown t loc names).1 loc names := by
  induction names generalizing t loc with
  | nil =>
    refine ⟨fun pre hpre => ?_, nofun⟩
    rw [List.prefix_nil.1 hpre, List.append_nil]
    exact hd
  | cons n rest ih =>
    have hstep {t' : FileTree} (hd' : t'.isDirectory (loc ++ [n]) = true)
        (hloc : t'.isDirectory loc = true) (hn : n.utf8ByteSize ≤ maxNameBytes)
        (h' : (makeDown t' (loc ++ [n]) rest).2 = .ok ()) :
        Clear (makeDown t' (loc ++ [n]) rest).1 loc (n :: rest) := by
      have hrest := ih hd' h'
      refine ⟨fun pre hpre => ?_, fun m hm => ?_⟩
      · cases pre with
        | nil =>
          rw [List.append_nil]
          have hkept := (get?_makeDown t' (loc ++ [n]) rest loc)
          rw [FileTree.isDirectory_iff] at hloc ⊢
          rcases hkept with hsame | ⟨-, hnew, -⟩
          · exact hsame.trans hloc
          · exact hnew
        | cons m pre =>
          obtain ⟨rfl, hrestpre⟩ := List.cons_prefix_cons.1 hpre
          rw [List.append_cons loc m pre]
          exact hrest.directory pre hrestpre
      · rcases List.mem_cons.1 hm with rfl | hm
        · exact hn
        · exact hrest.short m hm
    unfold makeDown at h ⊢
    split at h
    · cases h
    · next hn =>
      rw [if_neg hn]
      have hn := Nat.le_of_not_lt hn
      split at h
      · next hnone =>
        refine hstep ?_ (isDirectory_insert_directory hd) hn h
        rw [FileTree.isDirectory_iff]
        exact FileTree.get?_insert_self hnone
      · next hdir => exact hstep (FileTree.isDirectory_iff.2 hdir) hd hn h
      · cases h

/-! ## Making directories by path -/

/-- A directory is found where its path leads, also if a link at the end is not followed. -/
theorem found_of_walked {links : Nat} {loc l : Location} {xs : List Step}
    (h : Walked t true links loc xs l) (hl : t.isDirectory l = true) :
    ∃ l', walk t ⟨false, true⟩ links loc xs = .ok l' ∧ (t.get? l').isSome = true := by
  induction h with
  | @done links loc =>
    refine ⟨loc, walk_nil _ _ _ _, ?_⟩
    rw [FileTree.isDirectory_iff.1 hl]
    rfl
  | stay hd _ ih =>
    rw [walk_stay, if_pos hd]
    exact ih hl
  | up hd _ ih =>
    rw [walk_up, if_pos hd]
    exact ih hl
  | into hd hn he hlink _ ih =>
    rw [walk_into_entry hd hn he hlink]
    exact ih hl
  | last _ _ _ hlast => cases hlast
  | @jump links loc l n target rest hd hn he _ _ ih =>
    rw [walk_into, if_neg (by simp [hd]), if_neg (Nat.not_lt_of_le hn), he]
    dsimp only
    split
    · exact ⟨_, rfl, by rw [he]; rfl⟩
    · exact ih hl

theorem text_trimSlashes_ne (hne : p.text ≠ "") : (trimSlashes p).text ≠ "" := by
  unfold trimSlashes
  split
  · exact hne
  split
  · exact hne
  · next hcs =>
    intro hempty
    have hnil := congrArg String.toList hempty
    rw [String.toList_ofList] at hnil
    exact hcs hnil

/-- Slashes at the end of a path do not decide whether it fits. -/
theorem fits_trimSlashes : (trimSlashes p).Fits ↔ p.Fits := by
  by_cases hlong : maxPathBytes < p.text.utf8ByteSize
  · unfold trimSlashes
    rw [if_pos hlong]
  · obtain ⟨k, htext, -⟩ := exists_slashes p
    have hwhole : p.text = (trimSlashes p).text ++ String.ofList (List.replicate k '/') := by
      rw [← String.toList_inj, String.toList_append, String.toList_ofList]
      exact htext
    have hnull : p.text.toList.contains '\x00' = (trimSlashes p).text.toList.contains '\x00' := by
      rw [htext]
      simp
    have hsize := congrArg String.utf8ByteSize hwhole
    rw [String.utf8ByteSize_append] at hsize
    constructor
    · exact fun h => ⟨hnull.trans h.noNull, Nat.le_of_not_lt hlong⟩
    · exact fun h => ⟨hnull.symm.trans h.noNull, by have := h.short; omega⟩

theorem createDirectory_of_leadsTo (h : d.LeadsTo p out) (hne : p.text ≠ "") (hfits : p.Fits) :
    d.createDirectory p = .error .fileExists := by
  have htrimmed := h.congr (Path.components_trimSlashes p)
  obtain ⟨l, hwalk, hfound⟩ := found_of_walked htrimmed.walked h.directory
  obtain ⟨e, he⟩ := Option.isSome_iff_exists.1 hfound
  unfold createDirectory
  rw [(htrimmed.accepts (text_trimSlashes_ne hne) (fits_trimSlashes.2 hfits)).locate_eq, hwalk]
  dsimp only [bind, Except.bind]
  rw [he]

/-- A path that does not fit is not followed. -/
theorem locate_of_not_fits (hfits : ¬ p.Fits) :
    ∃ e, e ≠ .notFound ∧ ∀ (d : Disk) (r : Reach), d.locate r p = .error e := by
  have hempty : ¬ p.text.isEmpty = true := by simpa using Path.text_ne_of_not_fits hfits
  by_cases hnull : p.text.toList.contains '\x00' = true
  · refine ⟨.nullInPath, nofun, fun d r => ?_⟩
    unfold locate
    rw [if_neg hempty, if_pos hnull]
  · refine ⟨.nameTooLong, nofun, fun d r => ?_⟩
    unfold locate
    rw [if_neg hempty, if_neg hnull, if_pos]
    exact Nat.lt_of_not_le fun hshort => hfits ⟨Bool.eq_false_iff.2 hnull, hshort⟩

theorem createDirectories_of_not_fits (hfits : ¬ p.Fits) :
    ∃ e, ∀ d : Disk, d.createDirectories p = (d, .error e) := by
  have hne := Path.text_ne_of_not_fits hfits
  obtain ⟨_, -, hwhole⟩ := locate_of_not_fits hfits
  obtain ⟨e, he, hlocate⟩ := locate_of_not_fits (mt fits_trimSlashes.1 hfits)
  refine ⟨e, fun d => ?_⟩
  have hcreate : d.createDirectory p = .error e := by
    unfold createDirectory
    rw [hlocate]
    rfl
  have hisDirectory : d.isDirectory p = false := by
    unfold isDirectory entry?
    rw [hwhole]
    rfl
  unfold createDirectories ancestors createFirst
  rw [if_neg (by simpa using hne), hcreate]
  cases e with
  | notFound => exact absurd rfl he
  | _ => simp [hisDirectory]

/-- Makes one directory, unless it is there. -/
def makeOne (d : Disk) (p : Path) : Disk × Except OsError Unit :=
  match d.createDirectory p with
  | .ok d => (d, .ok ())
  | .error e => if d.isDirectory p then (d, .ok ()) else (d, .error e)

theorem createFirst_of_notFound (hne : p.text ≠ "") (h : d.createDirectory p = .error .notFound)
    (above : List Path) :
    d.createFirst (p :: above) =
      match (d.createFirst above).2 with
      | .error e => ((d.createFirst above).1, .error e)
      | .ok _ => (d.createFirst above).1.makeOne p := by
  conv_lhs => unfold createFirst
  rw [if_neg (by simpa using hne), h]
  dsimp only
  generalize d.createFirst above = r
  obtain ⟨d', result⟩ := r
  cases result with
  | error e => rfl
  | ok _ => rfl

theorem createFirst_of_found (hne : p.text ≠ "") (h : d.createDirectory p ≠ .error .notFound)
    (above : List Path) : d.createFirst (p :: above) = d.makeOne p := by
  unfold createFirst makeOne
  rw [if_neg (by simpa using hne)]
  cases hcreate : d.createDirectory p with
  | ok d' => rfl
  | error e =>
    cases e with
    | notFound => exact absurd hcreate h
    | _ => rfl

/-- The directory itself is the first that is made of those on the way to it. -/
theorem createDirectories_eq (p : Path) :
    ∃ above, ∀ d : Disk, d.createDirectories p = d.createFirst (p :: above) := ⟨_, fun _ => rfl⟩

/-- A directory is there once it has been made. -/
theorem createDirectories_of_leadsTo (h : d.LeadsTo p out) (hfits : p.Fits) :
    d.createDirectories p = (d, .ok ()) := by
  obtain ⟨above, habove⟩ := createDirectories_eq p
  rw [habove]
  by_cases hne : p.text = ""
  · unfold createFirst
    rw [if_pos (by simpa using hne)]
  · have hcreate := createDirectory_of_leadsTo h hne hfits
    rw [createFirst_of_found hne (by rw [hcreate]; simp)]
    unfold makeOne
    rw [hcreate, h.isDirectory hne hfits]
    rfl

/-- A path fits if its directories have been made. -/
theorem fits_of_createDirectories (h : (d.createDirectories p).2 = .ok ()) : p.Fits := by
  by_contra hfits
  obtain ⟨e, he⟩ := createDirectories_of_not_fits hfits
  rw [he] at h
  cases h

/-- The path is spelled by names after another. -/
structure Below (q : Path) (names : List String) (p : Path) : Prop where
  components : p.components = q.components ++ names.map .name
  tidy : names ≠ [] → p.Tidy
  trimmed : trimSlashes p = p

namespace Below

theorem text_ne (h : Below q names p) (hne : names ≠ []) : p.text ≠ "" := by
  intro hempty
  have hp := h.components
  obtain ⟨text⟩ := p
  obtain rfl : text = "" := hempty
  have hnil : Path.components ⟨""⟩ = [] := rfl
  rw [hnil] at hp
  exact hne (List.map_eq_nil_iff.1 (List.append_eq_nil_iff.1 hp.symm).2)

/-- The path above. -/
theorem parent {n : String} (h : Below q (names ++ [n]) p) :
    ∃ above, p.parent? = some above ∧ Below q names above ∧ (p.Fits → above.Fits) := by
  have hp := h.components
  rw [List.map_append, ← List.append_assoc] at hp
  have hlast : p.components.getLast? = some (.name n) := by
    rw [hp]
    exact List.getLast?_concat
  obtain ⟨above, habove⟩ := Path.exists_parent? hlast nofun
  have hcomponents : above.components = q.components ++ names.map .name := by
    rw [Path.components_parent? habove, hp]
    exact List.dropLast_concat
  refine ⟨above, habove, ⟨hcomponents, fun hne => ?_, Path.trimSlashes_of_parent? habove⟩,
    fun hfits => hfits.of_isPrefix (Path.parent?_text_prefix habove)⟩
  obtain ⟨init, m, rfl⟩ := List.eq_nil_or_concat names |>.resolve_left hne
  refine Path.tidy_of_parent? (n := m) habove ?_
  rw [hcomponents, List.concat_eq_append, List.map_append, ← List.append_assoc]
  exact List.getLast?_concat

theorem exists_above (h : Below q names p) (hne : names ≠ []) :
    ∃ above, p.parent? = some above ∧ Below q names.dropLast above := by
  obtain ⟨init, n, rfl⟩ := List.eq_nil_or_concat names |>.resolve_left hne
  rw [List.concat_eq_append] at h ⊢
  obtain ⟨above, habove, hinit, -⟩ := h.parent
  rw [List.dropLast_concat]
  exact ⟨above, habove, hinit⟩

end Below

section

variable (hout : d.LeadsTo q out) (hlinks : NoLinkBelow d.tree out)
include hout hlinks

theorem createDirectory_below (h : Below q names p) (hfits : p.Fits) (hne : names ≠ []) :
    d.createDirectory p =
      match descend d.tree true out names with
      | .error e => .error e
      | .ok l =>
        match d.tree.get? l with
        | some _ => .error .fileExists
        | none => .ok (d.insert l .directory) := by
  unfold createDirectory
  rw [h.trimmed, locate_down hout hlinks h.components hne (h.tidy hne) hfits]
  cases descend d.tree true out names with
  | error e => rfl
  | ok l => rfl

/-- Making one directory at the end of names does as making all that are missing, unless one on the
way is. -/
theorem makeOne_below (h : Below q names p) (hfits : p.Fits) (hne : names ≠ [])
    (hfound : descend d.tree true out names ≠ .error .notFound) :
    d.createDirectory p ≠ .error .notFound ∧
      d.makeOne p =
        ({ d with tree := (makeDown d.tree out names).1 }, (makeDown d.tree out names).2) := by
  have hcreate := createDirectory_below hout hlinks h hfits hne
  have hcheck := isDirectory_down hout hlinks h.components hne (h.tidy hne) hfits
  unfold makeOne
  cases hdescend : descend d.tree true out names with
  | error e =>
    have he : e ≠ .notFound := fun heq => hfound (by rw [hdescend, heq])
    obtain ⟨hmade, hstopped⟩ := makeDown_of_descend_error hout.directory hdescend he
    rw [hdescend] at hcreate
    rw [hstopped] at hcheck
    rw [hcreate, hmade]
    dsimp only at hcheck ⊢
    rw [hcheck, if_neg Bool.false_ne_true]
    exact ⟨fun heq => he (Except.error.inj heq), rfl⟩
  | ok l =>
    obtain ⟨rfl, hmade⟩ := makeDown_of_descend hne hout.directory hdescend
    rw [hdescend] at hcreate
    dsimp only at hcreate
    cases hget : d.tree.get? (out ++ names) with
    | none =>
      rw [hget] at hcreate hmade
      rw [hcreate, hmade]
      exact ⟨by simp, rfl⟩
    | some e =>
      have hreached := descend_of_found hdescend (by rw [hget]; rfl)
      rw [hreached] at hcheck
      rw [hget] at hcreate hmade
      rw [hcreate, hmade]
      dsimp only at hcheck ⊢
      rw [hcheck]
      refine ⟨by simp, ?_⟩
      cases e with
      | directory => rw [if_pos (FileTree.isDirectory_iff.2 hget)]
      | file bytes | link target =>
        rw [if_neg]
        rw [FileTree.isDirectory_iff, hget]
        exact nofun

/-- **Making directories** on the way down makes those that are missing, or fails at what is in the
way. -/
theorem createFirst_below (ht : Housed d.tree) (h : Below q names p) (hfits : p.Fits) {fuel : Nat}
    (hfuel : names.length < fuel) :
    d.createFirst (ancestors p fuel) =
      ({ d with tree := (makeDown d.tree out names).1 }, (makeDown d.tree out names).2) := by
  induction names using List.reverseRecOn generalizing p fuel with
  | nil =>
    obtain ⟨fuel, rfl⟩ := Nat.exists_eq_succ_of_ne_zero (Nat.ne_of_gt hfuel)
    have hleads : d.LeadsTo p out := by
      have hp := h.components
      rw [List.map_nil, List.append_nil] at hp
      exact hout.congr hp
    unfold ancestors
    by_cases hne : p.text = ""
    · unfold createFirst
      rw [if_pos (by simpa using hne)]
      rfl
    · have hcreate := createDirectory_of_leadsTo hleads hne hfits
      rw [createFirst_of_found hne (by simp [hcreate])]
      unfold makeOne
      rw [hcreate]
      dsimp only
      rw [if_pos (hleads.isDirectory hne hfits)]
      rfl
  | append_singleton names n ih =>
    obtain ⟨fuel, rfl⟩ := Nat.exists_eq_succ_of_ne_zero (Nat.ne_zero_of_lt hfuel)
    have hne : names ++ [n] ≠ [] := by simp
    obtain ⟨above, habove, hbelow, habovefits⟩ := h.parent
    have hancestors : ancestors p (fuel + 1) = p :: ancestors above fuel := by
      conv_lhs => unfold ancestors
      rw [habove]
    have hfuel : names.length < fuel := by
      rw [List.length_append, List.length_singleton] at hfuel
      omega
    rw [hancestors]
    by_cases hfound : descend d.tree true out (names ++ [n]) = .error .notFound
    · have hcreate := createDirectory_below hout hlinks h hfits hne
      rw [hfound] at hcreate
      rw [createFirst_of_notFound (h.text_ne hne) hcreate, ih hbelow (habovefits hfits) hfuel]
      dsimp only
      rw [makeDown_concat]
      cases hmade : (makeDown d.tree out names).2 with
      | error e =>
        have he : onTheWay e = e := by
          cases e with
          | fileExists => exact absurd hmade (makeDown_of_notFound ht hfound)
          | _ => rfl
        dsimp only
        rw [he]
      | ok _ =>
        dsimp only
        have hclear := makeDown_clear hout.directory hmade
        have hagree := makeDown_agree hlinks names
        obtain ⟨-, hone⟩ := makeOne_below (hout.agree hagree) hagree.noLink' h hfits hne (by
          dsimp only
          rw [descend_append true hclear]
          exact descend_one (hclear.directory names List.prefix_rfl))
        rw [hone]
        dsimp only
        rw [makeDown_concat, makeDown_of_clear hclear]
    · obtain ⟨hcreate, hmade⟩ := makeOne_below hout hlinks h hfits hne hfound
      rw [createFirst_of_found (h.text_ne hne) hcreate, hmade]

theorem createDirectories_below (ht : Housed d.tree) (h : Below q names p) (hfits : p.Fits) :
    d.createDirectories p =
      ({ d with tree := (makeDown d.tree out names).1 }, (makeDown d.tree out names).2) := by
  refine createFirst_below hout hlinks ht h hfits ?_
  rw [h.components, List.length_append, List.length_map]
  omega

/-- Whatever comes of making directories below a directory, nothing changes elsewhere. -/
theorem createDirectories_agree (ht : Housed d.tree) (h : Below q names p) :
    Agree out d (d.createDirectories p).1 := by
  by_cases hfits : p.Fits
  · rw [createDirectories_below hout hlinks ht h hfits]
    exact makeDown_agree hlinks names
  · obtain ⟨e, he⟩ := createDirectories_of_not_fits hfits
    rw [he]
    exact .refl hlinks

end

end Disk

end StaticSite
