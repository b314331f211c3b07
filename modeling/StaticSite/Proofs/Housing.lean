import StaticSite.Proofs.Framing

/-!
Trees where everything lies in a directory.

Proved here, for every disk:

* `directory_of_walk`: a path leads to a place in a directory, also where there is nothing yet;
* `apply_housed`: so no change puts anything elsewhere, and none takes a directory away without what
  lies in it.
-/

namespace StaticSite

namespace Disk

variable {t t' : FileTree} {d d' : Disk} {p : Path}

/-- There is nothing but in directories. -/
def Housed (t : FileTree) : Prop :=
  ∀ loc n, (t.get? (loc ++ [n])).isSome = true → t.isDirectory loc = true

namespace Housed

theorem of_entries (h : ∀ e ∈ t.entries, t.isDirectory e.1.dropLast = true) : Housed t := by
  intro loc n hget
  obtain ⟨e, he⟩ := Option.isSome_iff_exists.1 hget
  have hd := h _ (FileTree.mem_entries (by simp) he)
  rwa [List.dropLast_concat] at hd

theorem of_get? (ht : Housed t) (h : ∀ loc, t'.get? loc = t.get? loc) : Housed t' := by
  intro loc n hget
  rw [h] at hget
  rw [FileTree.isDirectory_iff, h, ← FileTree.isDirectory_iff]
  exact ht loc n hget

/-- Something is put in a directory, and not in place of one. -/
theorem insert (ht : Housed t) {place : Location} {e : Entry}
    (hplace : ∀ dir n, place = dir ++ [n] → t.isDirectory dir = true)
    (he : t.isDirectory place = true → e = .directory) : Housed (t.insert place e) := by
  have hkept {loc : Location} (hd : t.isDirectory loc = true) :
      (t.insert place e).isDirectory loc = true := by
    rw [FileTree.isDirectory_iff, FileTree.get?_insert]
    split
    · next heq => rw [he (heq.1 ▸ hd)]
    · exact FileTree.isDirectory_iff.1 hd
  intro loc n hget
  rw [FileTree.get?_insert] at hget
  split at hget
  · next heq => exact hkept (hplace loc n heq.1.symm)
  · exact hkept (ht loc n hget)

/-- What lies in the places that are taken away is taken away. -/
theorem eraseAll (ht : Housed t) {q : Location → Bool}
    (h : ∀ loc n, q loc = true → (t.get? (loc ++ [n])).isSome = true → q (loc ++ [n]) = true) :
    Housed (t.eraseAll q) := by
  intro loc n hget
  rw [FileTree.get?_eraseAll] at hget
  split at hget
  · cases hget
  · next hkept =>
    rw [FileTree.isDirectory_iff, FileTree.get?_eraseAll, if_neg]
    · exact FileTree.isDirectory_iff.1 (ht loc n hget)
    · rintro ⟨hq, -⟩
      exact hkept ⟨h loc n hq hget, by simp⟩

/-- Nothing lies in what is not there. -/
theorem get?_append (ht : Housed t) {loc : Location} (h : t.get? loc = none) (rest : Location) :
    t.get? (loc ++ rest) = none := by
  induction rest generalizing loc with
  | nil => rwa [List.append_nil]
  | cons n rest ih =>
    have hnext : t.get? (loc ++ [n]) = none := by
      rw [← Option.not_isSome_iff_eq_none]
      intro hsome
      rw [FileTree.isDirectory_iff.1 (ht loc n hsome)] at h
      cases h
    rw [List.append_cons]
    exact ih hnext

/-- What has something below it is a directory. -/
theorem isDirectory_of_below (ht : Housed t) {loc : Location} {n : String} (rest : Location)
    (h : (t.get? (loc ++ n :: rest)).isSome = true) : t.isDirectory loc = true := by
  induction rest generalizing loc n with
  | nil => exact ht loc n h
  | cons m rest ih =>
    have hnext : t.isDirectory (loc ++ [n]) = true := ih (by rwa [← List.append_cons])
    exact ht loc n (by rw [FileTree.isDirectory_iff.1 hnext]; rfl)

end Housed

/-! ## Places that paths lead to -/

/-- What a walk leads to lies in a directory. -/
theorem directory_of_walk (ht : Housed t) {r : Reach} {links : Nat} {loc dir : Location} {n : String}
    {xs : List Step} (hloc : (t.get? loc).isSome = true)
    (h : walk t r links loc xs = .ok (dir ++ [n])) : t.isDirectory dir = true := by
  have hplace {dir' : Location} {m : String} (hd : t.isDirectory dir' = true)
      (heq : dir' ++ [m] = dir ++ [n]) : t.isDirectory dir = true :=
    (List.append_inj' heq rfl).1 ▸ hd
  have hsome {loc : Location} (hd : t.isDirectory loc = true) : (t.get? loc).isSome = true := by
    rw [FileTree.isDirectory_iff.1 hd]
    rfl
  refine walk_ok_induction (P := fun _ loc _ => (t.get? loc).isSome = true →
    t.isDirectory dir = true) ?_ ?_ ?_ ?_ ?_ ?_ ?_ h hloc
  · intro _ hloc
    exact ht dir n hloc
  · intro _ loc rest _ ih hloc
    exact ih hloc
  · intro _ loc rest _ ih hloc
    refine ih ?_
    rcases List.eq_nil_or_concat loc with rfl | ⟨init, m, rfl⟩
    · exact hloc
    · rw [List.concat_eq_append] at hloc ⊢
      rw [List.dropLast_concat]
      exact hsome (ht init m hloc)
  · intro _ loc m e rest _ _ he _ ih _
    refine ih ?_
    rw [he]
    rfl
  · intro _ loc m hd _ _ _ heq _
    exact hplace hd heq
  · intro _ loc m target hd _ _ _ heq _
    exact hplace hd heq
  · intro _ loc m target rest _ _ _ _ ih hloc
    refine ih ?_
    unfold linkStart
    split
    · rfl
    · exact hloc

theorem directory_of_locate (ht : Housed d.tree) {r : Reach} {dir : Location} {n : String}
    (h : d.locate r p = .ok (dir ++ [n])) : d.tree.isDirectory dir = true := by
  obtain ⟨haccepts, hwalk⟩ := locate_eq_ok_iff.1 h
  refine directory_of_walk ht ?_ hwalk
  unfold start
  split
  · rfl
  · next hrelative =>
    rw [FileTree.isDirectory_iff.1 (haccepts.origin.resolve_left hrelative)]
    rfl

/-- Something is put where a path leads. -/
theorem insert_housed (ht : Housed d.tree) {r : Reach} {place : Location} {e : Entry}
    (h : d.locate r p = .ok place) (he : d.tree.isDirectory place = true → e = .directory) :
    Housed (d.insert place e).tree :=
  ht.insert (fun _ _ hplace => directory_of_locate ht (hplace ▸ h)) he

/-! ## Changes -/

theorem createDirectory_housed (ht : Housed d.tree) (h : d.createDirectory p = .ok d') :
    Housed d'.tree := by
  obtain ⟨loc, hlocate, -, rfl⟩ := createDirectory_eq_ok h
  exact insert_housed ht hlocate fun _ => rfl

theorem createDirectories_housed (ht : Housed d.tree) (p : Path) :
    Housed (d.createDirectories p).1.tree :=
  createFirst_invariant (I := fun d => Housed d.tree)
    (fun _ _ _ _ hd hmade => createDirectory_housed hd hmade) ht

theorem copyFile_housed (ht : Housed d.tree) (source target : Path) :
    Housed (d.copyFile source target).1.tree := by
  rcases copyFile_disk d source target with h | ⟨loc, bytes, hlocate, hnot, h⟩
  · rwa [h]
  · rw [h]
    exact insert_housed ht hlocate fun hd => absurd hd hnot

theorem replaceFile_housed (ht : Housed d.tree) (temporary : String) (p : Path) (bytes : ByteArray) :
    Housed (d.replaceFile temporary p bytes).1.tree := by
  cases hresult : (d.replaceFile temporary p bytes).2 with
  | error e => exact ht.of_get? (replaceFile_error hresult).2
  | ok _ =>
    obtain ⟨place, hplace, hnot, -, hget⟩ := replaceFile_replaced hresult
    have hne : place ≠ [] := by
      rintro rfl
      cases hnot
    refine (insert_housed (e := .file bytes) ht hplace fun hd => ?_).of_get? fun loc => ?_
    · cases hnot.symm.trans hd
    · rw [hget, get?_insert_of_ne hne]

theorem removeTree_housed (ht : Housed d.tree) (p : Path) : Housed (d.removeTree p).1.tree := by
  rcases removeTree_cases d p with h | ⟨top, target, -, hlink, h⟩ | ⟨top, hp, htop⟩
  · rwa [h]
  · rw [h]
    refine ht.eraseAll fun loc n hloc hthere => ?_
    obtain rfl := beq_iff_eq.1 hloc
    cases hlink.symm.trans (FileTree.isDirectory_iff.1 (ht _ n hthere))
  · have hemptied : Housed (d.tree.eraseAll (FileTree.isBelow top)) :=
      ht.eraseAll fun loc n hloc _ => isBelow_concat (FileTree.isBelow_iff.1 hloc).1 n
    rcases removeTree_of_directory hp htop with h | h
    · rwa [h]
    · rw [h]
      refine Housed.eraseAll hemptied fun loc n hloc hthere => ?_
      obtain rfl := beq_iff_eq.1 hloc
      rw [FileTree.get?_eraseAll, if_pos ⟨isBelow_concat List.prefix_rfl n, by simp⟩] at hthere
      cases hthere

end Disk

/-- **Housing.** Everything still lies in a directory after a change. -/
theorem apply_housed {d : Disk} (ht : Disk.Housed d.tree) (c : DiskChange) :
    Disk.Housed (c.apply d).1.tree := by
  cases c with
  | createDirectories p => exact Disk.createDirectories_housed ht p
  | copyFile source target => exact Disk.copyFile_housed ht source target
  | writeFile temporary p bytes => exact Disk.replaceFile_housed ht temporary p bytes
  | removeTree p => exact Disk.removeTree_housed ht p

end StaticSite
