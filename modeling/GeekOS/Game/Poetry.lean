import Mathlib.Algebra.GroupWithZero.Nat
import GeekOS.Library.CriticalSection
import GeekOS.Kernel.State

/-!
# Poems

`write_poem` of `poetry.c` as a list of statements on the one `s_poem` that all poets write to. A
thread can be interrupted between any two of the small steps of `body`: `i++` is a load and a
store, and `strncpy` stores one character after the other. The table `g_rand` is arbitrary.

* `writePoem`, `body`: the code;
* `runs_writePoem`: what a poet who is left alone prints, and what it does to `s_poem`;
* `serial_output`: what poets print one after the other.
-/

namespace GeekOS.Poetry

open CriticalSection

/-! ## The words -/

/-- The fields of `struct poem_t`. -/
inductive Field
  | flowerA | colourA | flowerB | colourB | statement | cadence
  deriving DecidableEq, Repr

/-- `s_flowers`. -/
def sFlowers : List String :=
  ["Roses", "Daisies", "Sunflowers", "Daffodils", "Lilies", "Irises", "Tulips", "Poppies"]

/-- `s_colours`. -/
def sColours : List String :=
  ["red", "yellow", "blue", "orange", "purple", "green", "brown", "black", "white"]

/-- `s_statement`. -/
def sStatement : List String :=
  ["Bicycles rock", "Sugar is sweet", "Trucks drink gas", "Words suck", "Sheep are fun",
   "Rhyming is hard"]

/-- `s_cadence`. -/
def sCadence : List String :=
  ["I like ponies.", "And so are you.", "Where's my car?", "SEGFAULT...", "Who ate my chips?",
   "I am so smrt.", "Supercalifragilisticexpialidocious"]

namespace Field

/-- The fields as `write_poem` stores them, and `print_poem` reads them. -/
def all : List Field := [flowerA, colourA, flowerB, colourB, statement, cadence]

/-- The table for a field. -/
def table : Field → List String
  | flowerA | flowerB => sFlowers
  | colourA | colourB => sColours
  | statement => sStatement
  | cadence => sCadence

/-- The argument of `next_rand`: `POEM_NUM_FLOWER` and so on. -/
def num : Field → ℕ
  | flowerA | flowerB => 8
  | colourA | colourB => 9
  | statement => 6
  | cadence => 7

/-- `POEM_WORD_LENGTH` or `POEM_CLAUSE_LENGTH`: the size of the field, and the limit of its
`strncpy`. -/
def length : Field → ℕ
  | flowerA | colourA | flowerB | colourB => 15
  | statement | cadence => 50

/-- The characters of an entry of the table, up to the terminator. -/
def word (f : Field) (r : ℕ) : List Char := (f.table.getD r "").toList

end Field

/-- `NUM_RAND`. -/
def numRand : ℕ := 10000

instance : NeZero numRand := ⟨Nat.succ_ne_zero 9999⟩

/-- `JOB_DELAY`. -/
def jobDelay : ℕ := 10

/-! ## The code -/

/-- `s_poem` and the counter inside `next_rand`, and what has been printed of poems: the thread and
the string, for each `%s` of `print_poem`. -/
structure Data where
  poem : (f : Field) → Vector Char f.length
  i : UInt32
  output : List (ThreadId × List Char)

/-- The string that a field holds. -/
def Data.string (d : Data) (f : Field) : List Char :=
  (d.poem f).toList.takeWhile (· ≠ '\x00')

/-- Store a character of a field. -/
def Data.store (d : Data) (f : Field) (k : ℕ) (c : Char) : Data :=
  { d with poem := Function.update d.poem f ((d.poem f).setIfInBounds k c) }

/-- The statements of `write_poem` and of what it calls. -/
inductive Statement
  /-- `busy_wait(JOB_DELAY)`. -/
  | busyWait
  /-- The load of `i` in `next_rand`. -/
  | load
  /-- The rest of `next_rand(num)`. -/
  | nextRand (num : ℕ)
  /-- `strncpy` of the entry that was chosen. -/
  | strncpy (f : Field)
  /-- A `%s` of `print_poem`. -/
  | print (f : Field)
  deriving DecidableEq, Repr

/-- `plan_poem`. -/
def planPoem : List Statement := [.busyWait, .busyWait, .busyWait]

/-- A line of `write_poem`. -/
def writeField (f : Field) : List Statement := [.load, .nextRand f.num, .strncpy f]

/-- `print_poem`. -/
def printPoem : List Statement := Field.all.map .print

/-- `savour_poem`. -/
def savourPoem : List Statement := [.busyWait, .busyWait]

/-- `write_poem`. -/
def writePoem : List Statement :=
  planPoem ++ Field.all.flatMap writeField ++ printPoem ++ savourPoem

/-- Where a poet is in `write_poem`: the statements that are left, the `i` it has loaded, the value
of `next_rand`, and how many characters `strncpy` has stored. -/
structure Local where
  todo : List Statement
  i : UInt32 := 0
  r : ℕ := 0
  k : ℕ := 0
  deriving DecidableEq, Repr

section Code

variable (gRand : Fin numRand → ℕ)

/-- One small step of the first statement that is left. -/
def body (t : ThreadId) (l : Local) (d : Data) : Option (Local × Data) :=
  match l.todo with
  | [] => none
  | .busyWait :: rest => some ({ l with todo := rest }, d)
  | .load :: rest => some ({ l with todo := rest, i := d.i }, d)
  | .nextRand num :: rest =>
      some ({ l with todo := rest, r := gRand (Fin.ofNat numRand l.i.toNat) % num, k := 0 },
        { d with i := l.i + 1 })
  | .strncpy f :: rest =>
      let src := f.word l.r
      if h : l.k < src.length ∧ l.k < f.length then
        some ({ l with k := l.k + 1 }, d.store f l.k src[l.k])
      else some ({ l with todo := rest }, if l.k < f.length then d.store f l.k '\x00' else d)
  | .print f :: rest =>
      some ({ l with todo := rest }, { d with output := d.output ++ [(t, d.string f)] })

/-- `write_poem` as the code of a critical section. -/
def code : Code ThreadId Local Data where
  entry := { todo := writePoem }
  body := body gRand

/-- The word for the field `f` when the counter of `next_rand` is `i`. -/
def chosen (f : Field) (i : UInt32) : List Char :=
  f.word (gRand (Fin.ofNat numRand i.toNat) % f.num)

/-- The words for some fields, from the counter `i` on. -/
def chosenWords : List Field → UInt32 → List (List Char)
  | [], _ => []
  | f :: fs, i => chosen gRand f i :: chosenWords fs (i + 1)

/-- The strings of a poem that is begun when the counter is `i`. -/
def composed (i : UInt32) : List (List Char) := chosenWords gRand Field.all i

/-- What poets print one after the other, if the first of them finds the counter at `i`. -/
def poems : List ThreadId → UInt32 → List (ThreadId × List Char)
  | [], _ => []
  | t :: ts, i => (composed gRand i).map (t, ·) ++ poems ts (i + 6)

end Code

/-! ## One poet -/

section Runs

variable (gRand : Fin numRand → ℕ) (t : ThreadId) (d : Data) {f g : Field} {rest : List Statement}

/-- A word fits in its field, with the terminator, which it does not contain. -/
theorem chosen_fits (f : Field) (i : UInt32) :
    (chosen gRand f i).length < f.length ∧ '\x00' ∉ chosen gRand f i := by
  have hall : ∀ r < f.num, (f.word r).length < f.length ∧ '\x00' ∉ f.word r := by
    cases f <;> decide
  refine hall _ (Nat.mod_lt _ ?_)
  cases f <;> decide

theorem store_string_of_ne {k : ℕ} {c : Char} (hgf : g ≠ f) :
    (d.store f k c).string g = d.string g := by
  simp [Data.string, Data.store, Function.update_of_ne hgf]

theorem store_toList {k : ℕ} {c : Char} (hk : k < f.length) :
    ((d.store f k c).poem f).toList =
      (d.poem f).toList.take k ++ c :: (d.poem f).toList.drop (k + 1) := by
  have hlen : k < (d.poem f).toList.length := by simpa using hk
  simp only [Data.store, Function.update_self]
  rw [Vector.toList_setIfInBounds, List.set_eq_take_append_cons_drop, if_pos hlen]

/-- The loop of `strncpy`, from the character `k` of the word on. -/
theorem alone_strncpy {l : Local} (hl : l.todo = .strncpy f :: rest)
    (hfits : (f.word l.r).length < f.length) (hnul : '\x00' ∉ f.word l.r)
    (hk : l.k ≤ (f.word l.r).length)
    (hd : (d.poem f).toList.take l.k = (f.word l.r).take l.k) :
    ∃ l' d', (code gRand).Alone t (l, d) (l', d') ∧ l'.todo = rest ∧
      d'.string f = f.word l.r ∧ (∀ g, g ≠ f → d'.string g = d.string g) ∧ d'.i = d.i ∧
      d'.output = d.output := by
  obtain ⟨n, hn⟩ : ∃ n, (f.word l.r).length = l.k + n := Nat.exists_eq_add_of_le hk
  induction n generalizing l d with
  | zero =>
    -- the terminator
    refine ⟨{ l with todo := rest }, d.store f l.k '\x00', .single ?_, rfl, ?_,
      fun g hg => store_string_of_ne d hg, rfl, rfl⟩
    · have hle : ¬f.length ≤ l.k := by omega
      simp [code, body, hl, hn, hle]
    · rw [Data.string, store_toList d (by omega), hd, List.take_of_length_le (by omega),
        List.takeWhile_append_of_pos]
      · simp
      · intro c hc
        have hne : c ≠ '\x00' := fun h => hnul (h ▸ hc)
        simpa using hne
  | succ n ih =>
    have hlt : l.k < (f.word l.r).length := by omega
    have hstep : body gRand t l d = some ({ l with k := l.k + 1 },
        d.store f l.k ((f.word l.r)[l.k])) := by
      simp [body, hl, hlt, hlt.trans hfits]
    have htake : ((d.store f l.k ((f.word l.r)[l.k])).poem f).toList.take (l.k + 1) =
        (f.word l.r).take (l.k + 1) := by
      have hlen : ((d.poem f).toList.take l.k).length = l.k := by
        rw [hd, List.length_take]
        omega
      rw [store_toList d (by omega), List.take_append, hlen, List.take_of_length_le (by omega), hd]
      simp
    obtain ⟨l', d', halone, htodo, hstring, hother, hi, hout⟩ :=
      ih _ (l := { l with k := l.k + 1 }) hl hfits hnul hlt htake (by simp; omega)
    refine ⟨l', d', .head hstep halone, htodo, hstring, fun g hg => ?_, hi, hout⟩
    exact (hother g hg).trans (store_string_of_ne d hg)

/-- A line of `write_poem`. -/
theorem alone_writeField {l : Local} (hl : l.todo = writeField f ++ rest) :
    ∃ l' d', (code gRand).Alone t (l, d) (l', d') ∧ l'.todo = rest ∧
      d'.string f = chosen gRand f d.i ∧ (∀ g, g ≠ f → d'.string g = d.string g) ∧
      d'.i = d.i + 1 ∧ d'.output = d.output := by
  obtain ⟨hfits, hnul⟩ := chosen_fits gRand f d.i
  obtain ⟨l', d', halone, htodo, hstring, hother, hi, hout⟩ := alone_strncpy gRand t
    { d with i := d.i + 1 }
    (l := ⟨.strncpy f :: rest, d.i, gRand (Fin.ofNat numRand d.i.toNat) % f.num, 0⟩)
    rfl hfits hnul (Nat.zero_le _) rfl
  have hload : body gRand t l d =
      some (⟨.nextRand f.num :: .strncpy f :: rest, d.i, l.r, l.k⟩, d) := by
    simp [body, hl, writeField]
  refine ⟨l', d', .head hload (.head ?_ halone), htodo, hstring, fun g hg => ?_, hi, hout⟩
  · rfl
  · exact (hother g hg).trans rfl

/-- Some lines of `write_poem`, each about another field. -/
theorem alone_writeFields {fs : List Field} (hfs : fs.Nodup) {l : Local}
    (hl : l.todo = fs.flatMap writeField ++ rest) :
    ∃ l' d', (code gRand).Alone t (l, d) (l', d') ∧ l'.todo = rest ∧
      fs.map d'.string = chosenWords gRand fs d.i ∧ (∀ g, g ∉ fs → d'.string g = d.string g) ∧
      d'.i = d.i + UInt32.ofNat fs.length ∧ d'.output = d.output := by
  induction fs generalizing l d with
  | nil => exact ⟨l, d, .refl, hl, rfl, fun _ _ => rfl, by simp, rfl⟩
  | cons f fs ih =>
    obtain ⟨hf, hfs⟩ := List.nodup_cons.mp hfs
    have htodo : l.todo = writeField f ++ (fs.flatMap writeField ++ rest) := by simpa using hl
    obtain ⟨l₁, d₁, h₁, htodo₁, hstring₁, hother₁, hi₁, hout₁⟩ := alone_writeField gRand t d htodo
    obtain ⟨l₂, d₂, h₂, htodo₂, hwords₂, hother₂, hi₂, hout₂⟩ := ih d₁ hfs htodo₁
    refine ⟨l₂, d₂, h₁.trans h₂, htodo₂, ?_, fun g hg => ?_, ?_, hout₂.trans hout₁⟩
    · -- the later lines leave the first field alone
      rw [List.map_cons, hother₂ f hf, hstring₁, hwords₂, hi₁]
      rfl
    · obtain ⟨hgf, hg⟩ := not_or.mp (mt List.mem_cons.mpr hg)
      exact (hother₂ g hg).trans (hother₁ g hgf)
    · rw [hi₂, hi₁, List.length_cons, UInt32.add_assoc, Nat.add_comm, UInt32.ofNat_add]
      rfl

theorem alone_print {fs : List Field} {l : Local} (hl : l.todo = fs.map .print ++ rest) :
    ∃ l', (code gRand).Alone t (l, d)
      (l', { d with output := d.output ++ (fs.map d.string).map (t, ·) }) ∧ l'.todo = rest := by
  induction fs generalizing l d with
  | nil => exact ⟨l, by simpa using .refl, hl⟩
  | cons f fs ih =>
    obtain ⟨l', h, htodo⟩ := ih { d with output := d.output ++ [(t, d.string f)] }
      (l := { l with todo := fs.map .print ++ rest }) rfl
    have hstep : body gRand t l d = some ({ l with todo := fs.map .print ++ rest },
        { d with output := d.output ++ [(t, d.string f)] }) := by
      simp [body, hl]
    have hstring : Data.string { d with output := d.output ++ [(t, d.string f)] } = d.string := rfl
    rw [hstring, List.append_assoc] at h
    exact ⟨l', .head hstep h, htodo⟩

theorem alone_busyWait {n : ℕ} {l : Local} (hl : l.todo = List.replicate n .busyWait ++ rest) :
    (code gRand).Alone t (l, d) ({ l with todo := rest }, d) := by
  induction n generalizing l with
  | zero =>
    obtain rfl : l.todo = rest := by simpa using hl
    exact .refl
  | succ n ih =>
    refine .head ?_ (ih (l := { l with todo := List.replicate n .busyWait ++ rest }) rfl)
    simp [code, body, hl, List.replicate_succ]

/-- A poet who is left alone prints a poem of six words that `next_rand` chooses for it. -/
theorem runs_writePoem :
    ∃ d', (code gRand).Runs t d d' ∧ d'.i = d.i + 6 ∧
      d'.output = d.output ++ (composed gRand d.i).map (t, ·) := by
  have hplan := alone_busyWait gRand t d (n := 3) (l := { todo := writePoem }) rfl
  obtain ⟨l₁, d₁, h₁, htodo₁, hwords, -, hi, hout⟩ := alone_writeFields gRand t d
    (by decide : Field.all.Nodup)
    (l := { todo := Field.all.flatMap writeField ++ (printPoem ++ savourPoem) }) rfl
  obtain ⟨l₂, h₂, htodo₂⟩ := alone_print gRand t d₁ htodo₁
  have hsavour := alone_busyWait gRand t
    { d₁ with output := d₁.output ++ (Field.all.map d₁.string).map (t, ·) } (n := 2)
    (htodo₂.trans (List.append_nil _).symm)
  refine ⟨_, ⟨_, ((hplan.trans h₁).trans h₂).trans hsavour, rfl⟩, hi, ?_⟩
  rw [hwords, hout]
  rfl

/-- Nobody takes back what has been printed. -/
theorem output_body {l l' : Local} {d' : Data} (h : body gRand t l d = some (l', d')) :
    d.output <+: d'.output := by
  unfold body at h
  split at h
  · exact absurd h (Option.some_ne_none _).symm
  · obtain ⟨-, rfl⟩ := by simpa using h
    exact List.prefix_refl _
  · obtain ⟨-, rfl⟩ := by simpa using h
    exact List.prefix_refl _
  · obtain ⟨-, rfl⟩ := by simpa using h
    exact List.prefix_refl _
  · dsimp only at h
    split at h
    · obtain ⟨-, rfl⟩ := by simpa using h
      exact List.prefix_refl _
    · obtain ⟨-, rfl⟩ := by simpa using h
      split <;> exact List.prefix_refl _
  · obtain ⟨-, rfl⟩ := by simpa using h
    exact List.prefix_append _ _

theorem output_prefix {p q : Local × Data} (h : (code gRand).Alone t p q) :
    p.2.output <+: q.2.output :=
  h.invariant (I := fun q => p.2.output <+: q.2.output) (List.prefix_refl _)
    fun _ _ hp hstep => hp.trans (output_body _ _ _ hstep)

end Runs

/-! ## All poets -/

section Poems

variable {gRand : Fin numRand → ℕ} {d₀ d : Data} {t : ThreadId}

theorem poems_append (ts : List ThreadId) (i : UInt32) : poems gRand (ts ++ [t]) i =
    poems gRand ts i ++ (composed gRand (i + UInt32.ofNat (6 * ts.length))).map (t, ·) := by
  induction ts generalizing i with
  | nil => simp [poems]
  | cons u ts ih =>
    have hi : i + UInt32.ofNat (6 * (u :: ts).length) = i + 6 + UInt32.ofNat (6 * ts.length) := by
      rw [List.length_cons, Nat.mul_succ, Nat.add_comm, UInt32.ofNat_add, UInt32.add_assoc]
      rfl
    rw [List.cons_append, poems, ih, poems, List.append_assoc, hi]

/-- What poets print one after the other. -/
theorem serial_output {left : List ThreadId} (h : (code gRand).Serial d₀ left d) :
    d.i = d₀.i + UInt32.ofNat (6 * left.length) ∧
      d.output = d₀.output ++ poems gRand left d₀.i := by
  refine h.invariant (I := fun left d => d.i = d₀.i + UInt32.ofNat (6 * left.length) ∧
    d.output = d₀.output ++ poems gRand left d₀.i) (by simp [poems]) ?_
  rintro left t d d' ⟨hi, hout⟩ hrun
  obtain ⟨d₁, hrun₁, hi₁, hout₁⟩ := runs_writePoem gRand t d
  obtain rfl := hrun.unique hrun₁
  constructor
  · rw [hi₁, hi, List.length_append, Nat.mul_add, UInt32.ofNat_add, UInt32.add_assoc]
    rfl
  · rw [hout₁, hout, hi, poems_append, List.append_assoc]

/-- At any time the poems of those that have left have been printed, and a part of one more. -/
theorem serializable_output {s : State ThreadId Local Data} (h : (code gRand).Serializable d₀ s) :
    d₀.output ++ poems gRand s.left d₀.i <+: s.data.output ∧
      (s.inside = none → s.data.output = d₀.output ++ poems gRand s.left d₀.i) ∧
      ∃ t, s.data.output <+: d₀.output ++ poems gRand (s.left ++ [t]) d₀.i := by
  obtain ⟨d, hserial, hinside⟩ := h
  obtain ⟨hi, hout⟩ := serial_output hserial
  rcases s with ⟨data, _ | ⟨t, l⟩, left⟩
  · obtain rfl := hinside
    refine ⟨hout ▸ List.prefix_refl _, fun _ => hout, 0, ?_⟩
    rw [hout, poems_append, ← List.append_assoc]
    exact List.prefix_append _ _
  · refine ⟨hout ▸ output_prefix gRand t hinside,
      fun hnone => absurd hnone (Option.some_ne_none _), t, ?_⟩
    -- the poet inside will have printed all of its poem
    obtain ⟨d', hrun, hi', hout'⟩ := runs_writePoem gRand t d
    obtain ⟨l', hrest, -⟩ := hrun.of_alone hinside
    have hwhole : d'.output = d₀.output ++ poems gRand (left ++ [t]) d₀.i := by
      rw [hout', hout, hi, poems_append, List.append_assoc]
    exact hwhole ▸ output_prefix gRand t hrest

end Poems

end GeekOS.Poetry
