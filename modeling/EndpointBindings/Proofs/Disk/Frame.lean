import EndpointBindings.Disk.Basic
import EndpointBindings.Proofs.Tables

/-!
# What the operations of a disk leave alone

Each operation changes the item at one location at most.  A directory is only made where nothing
was, and a file is never written over a directory.  So directories stay, and outside the files that
are written nothing changes but that new directories appear (`Disk.TouchesOnly`).

Because directories stay, a path that leads somewhere goes on leading there (`follow_mono`),
whatever has been made and written since.
-/

namespace EndpointBindings.Disk

variable {d d' d'' : Disk} {path : String} {location : Location}

/-- Two operations succeed one after the other when the second does with what the first gives. -/
theorem bind_eq_ok {α β : Type} {first : Except FileFault α} {second : α → Except FileFault β}
    {result : β} :
    first >>= second = .ok result ↔ ∃ middle, first = .ok middle ∧ second middle = .ok result := by
  cases first with
  | error fault => exact ⟨nofun, nofun⟩
  | ok middle => exact ⟨fun h => ⟨middle, rfl, h⟩, fun ⟨_, he, h⟩ => by cases he; exact h⟩

/-! ## Following names -/

/-- The location that the names of a path lead to.  A path without names leads to where it
starts. -/
def follow (d : Disk) (path : String) : Except FileFault Location :=
  (Path.names path).foldlM d.step (if Path.isAbsolute path then [] else d.workingDir)

theorem follow_of_locate (h : d.locate path = .ok location) : d.follow path = .ok location := by
  unfold locate at h
  split at h
  · cases h
  · split at h
    · cases h
    · split at h
      · cases h
      · exact h

/-- A name is looked for in a directory. -/
theorem directory_of_step {name : String} {next : Location} (h : d.step location name = .ok next) :
    d.item? location = some .directory := by
  unfold step at h
  split at h
  · cases h
  · assumption
  · cases h

/-- A name that is no dots leads to what lies under it. -/
theorem step_eq_append {name : String} {next : Location} (h : d.step location name = .ok next)
    (hdot : name ≠ ".") (hdots : name ≠ "..") : next = location ++ [name] := by
  rw [step, directory_of_step h] at h
  simp only [if_neg hdot, if_neg hdots] at h
  split at h
  · cases h
  · exact (Except.ok.inj h).symm

/-! ## What is touched -/

/-- All that changes from one disk to another is the files at some locations, the own ones, and that
there are new directories. -/
structure TouchesOnly (d d' : Disk) (own : Location → Prop) : Prop where
  workingDir : d'.workingDir = d.workingDir
  directories : ∀ location, d.item? location = some .directory →
    d'.item? location = some .directory
  others : ∀ location, ¬ own location → d'.item? location = d.item? location ∨
    d.item? location = none ∧ d'.item? location = some .directory

variable {own own' : Location → Prop}

theorem TouchesOnly.refl (d : Disk) (own : Location → Prop) : d.TouchesOnly d own where
  workingDir := rfl
  directories _ h := h
  others _ _ := .inl rfl

theorem TouchesOnly.trans (h : d.TouchesOnly d' own) (h' : d'.TouchesOnly d'' own) :
    d.TouchesOnly d'' own where
  workingDir := h'.workingDir.trans h.workingDir
  directories location hd := h'.directories location (h.directories location hd)
  others location hown := by
    rcases h.others location hown with heq | ⟨hnone, hmade⟩
    · rw [← heq]
      exact h'.others location hown
    · exact .inr ⟨hnone, h'.directories location hmade⟩

theorem TouchesOnly.mono (h : d.TouchesOnly d' own)
    (hown : ∀ location, own location → own' location) : d.TouchesOnly d' own' where
  workingDir := h.workingDir
  directories := h.directories
  others location hnot := h.others location fun ho => hnot (hown location ho)

/-- A file that is not touched has its contents. -/
theorem TouchesOnly.file {item : FileItem} (h : d.TouchesOnly d' own) (hown : ¬ own location)
    (hitem : d.item? location = some item) : d'.item? location = some item := by
  rcases h.others location hown with heq | ⟨hnone, -⟩
  · exact heq.trans hitem
  · cases hnone.symm.trans hitem

/-- **Paths go on leading where they led**, by induction on the names. -/
theorem TouchesOnly.follow_mono (h : d.TouchesOnly d' own)
    (hfollow : d.follow path = .ok location) : d'.follow path = .ok location := by
  rw [follow] at hfollow ⊢
  rw [h.workingDir]
  generalize Path.names path = names at hfollow ⊢
  generalize (if Path.isAbsolute path then [] else d.workingDir) = start at hfollow ⊢
  induction names generalizing start with
  | nil => exact hfollow
  | cons name names ih =>
      rw [List.foldlM_cons, bind_eq_ok] at hfollow ⊢
      obtain ⟨next, hstep, hrest⟩ := hfollow
      have hdirectory := directory_of_step hstep
      refine ⟨next, ?_, ih next hrest⟩
      rw [← hstep, step, step, hdirectory, h.directories start hdirectory]

/-! ## Putting an item -/

theorem item?_put_of_ne {other : Location} (h : other ≠ location) (item : FileItem) :
    (d.put location item).item? other = d.item? other := by
  cases other with
  | nil => rfl
  | cons name names =>
      show Ordered.get? (Ordered.put d.items location item) _ = _
      rw [Ordered.get?_put, if_neg h.symm]
      rfl

theorem item?_put_self (h : location ≠ []) (item : FileItem) :
    (d.put location item).item? location = some item := by
  cases location with
  | nil => exact absurd rfl h
  | cons name names =>
      show Ordered.get? (Ordered.put d.items _ item) _ = _
      rw [Ordered.get?_put, if_pos rfl]

/-- The root is a directory, so what lies at no directory lies below it. -/
theorem ne_root (h : d.item? location ≠ some .directory) : location ≠ [] := by
  rintro rfl
  exact h rfl

/-- A file put where no directory is touches its location only. -/
theorem touchesOnly_put_text (h : d.item? location ≠ some .directory) (contents : String) :
    d.TouchesOnly (d.put location (.text contents)) (· = location) where
  workingDir := rfl
  directories other hother := by
    have hne : other ≠ location := fun he => h (he ▸ hother)
    rw [item?_put_of_ne hne, hother]
  others other hne := .inl (item?_put_of_ne hne _)

/-- A directory put where nothing is touches no file. -/
theorem touchesOnly_put_directory (h : d.item? location = none) (own : Location → Prop) :
    d.TouchesOnly (d.put location .directory) own := by
  have hself := item?_put_self (d := d) (ne_root (by rw [h]; nofun)) .directory
  refine ⟨rfl, fun other hother => ?_, fun other _ => ?_⟩
  · by_cases hne : other = location
    · rw [hne, hself]
    · rw [item?_put_of_ne hne, hother]
  · by_cases hne : other = location
    · rw [hne]
      exact .inr ⟨h, hself⟩
    · exact .inl (item?_put_of_ne hne _)

/-! ## The operations -/

theorem writeText_eq_ok {contents : String} (h : d.writeText path contents = .ok d') :
    ∃ location, d.locate path = .ok location ∧ d.item? location ≠ some .directory ∧
      d' = d.put location (.text contents) := by
  obtain ⟨location, hlocate, hput⟩ := bind_eq_ok.1 h
  refine ⟨location, hlocate, ?_⟩
  split at hput
  · cases hput
  · next hfile hitem =>
      split at hput
      · cases hput
      · cases hput
        refine ⟨fun hdirectory => hfile ?_, rfl⟩
        exact Option.some.inj (hitem.symm.trans hdirectory)
  · next hitem =>
      split at hput
      · cases hput
      · cases hput
        exact ⟨by rw [hitem]; nofun, rfl⟩

theorem makeDir_touches (h : d.makeDir path = .ok d') (own : Location → Prop) :
    d.TouchesOnly d' own := by
  obtain ⟨location, -, hput⟩ := bind_eq_ok.1 h
  split at hput
  · cases hput
  · next hnone =>
      cases hput
      exact touchesOnly_put_directory hnone own

theorem makeDirBelow_touches {makeAbove : Disk → Disk × Option FileFault}
    (habove : ∀ d : Disk, d.TouchesOnly (makeAbove d).1 own) (d : Disk) (path : String) :
    d.TouchesOnly (d.makeDirBelow path makeAbove).1 own := by
  unfold makeDirBelow
  split
  · next hmade => exact makeDir_touches hmade own
  · have hparents := habove d
    split
    · next hmade =>
        rw [hmade] at hparents
        exact hparents
    · next hmade =>
        rw [hmade] at hparents
        split
        · next hlast => exact hparents.trans (makeDir_touches hlast own)
        · exact hparents
  · exact .refl d own

/-- Making directories touches no file, by induction on the parts of the path. -/
theorem makeDirAll_touches (own : Location → Prop) (d : Disk) (path : String) :
    d.TouchesOnly (d.makeDirAll path).1 own := by
  rw [makeDirAll]
  generalize Path.isAbsolute path = absolute
  induction (Path.parts path).reverse generalizing d path with
  | nil =>
      rw [makeDirs]
      split
      · exact makeDirBelow_touches (fun d => .refl d own) d path
      · exact .refl d own
  | cons part above ih =>
      rw [makeDirs]
      exact makeDirBelow_touches (fun d => ih d _) d path

end EndpointBindings.Disk
