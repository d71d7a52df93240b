import Anylinuxfs.Lemmas.LineReader

/-!
# The lines and the console

The reader validates every read by itself. On reads that end between characters it returns the lines of the stream and prints them
as they should be, however the stream is cut (`calls_of_texts`); on any other reads there is an error (`returnsLines_iff`).
-/

namespace Anylinuxfs

/-- The calls return the lines of the stream exactly when every read ends between two characters. -/
theorem returnsLines_iff (guestPrefix : Prefix) {reads : List Bytes} {s : List Char} (hne : ∀ b ∈ reads, b ≠ [])
    (hstream : reads.flatten = utf8 s) : (LineReader.new reads guestPrefix).ReturnsLines s ↔ ∀ b ∈ reads, IsText b := by
  constructor
  · intro hlines
    refine isText_of_noError (r := .new reads guestPrefix) hne fun n call hcall hnone => ?_
    have hmem : call.result ∈ ((LineReader.new reads guestPrefix).calls n).map ReadCall.result := List.mem_map_of_mem hcall
    rw [hlines n, hnone] at hmem
    simp at hmem
  · intro htexts
    obtain ⟨pieces, rfl⟩ : ∃ pieces : List (List Char), reads = pieces.map utf8 := by
      clear hstream hne
      induction reads with
      | nil => exact ⟨[], rfl⟩
      | cons b reads ih =>
        obtain ⟨⟨p, rfl⟩, hrest⟩ := List.forall_mem_cons.1 htexts
        obtain ⟨pieces, rfl⟩ := ih hrest
        exact ⟨p :: pieces, rfl⟩
    have hpieces : ∀ p ∈ pieces, p ≠ [] := fun p hp hnil => hne (utf8 p) (List.mem_map_of_mem hp) (by rw [hnil]; rfl)
    have hs : pieces.flatten = s := utf8_injective (by rw [utf8_flatten, hstream])
    exact fun n => hs ▸ ((represents_new hpieces).calls n).1

/-- A stream of two lines, the second of them a message without a newline, in three reads. -/
def labelStream : List (List Char) := ["é".toList, "\n<any".toList, "linuxfs-label:x>".toList]

theorem returnsLines_iff_labelStream :
    (LineReader.new (labelStream.map utf8) .guestLinux).ReturnsLines labelStream.flatten :=
  (returnsLines_iff .guestLinux (by decide) (utf8_flatten labelStream).symm).2 fun b hb => by
    obtain ⟨p, -, rfl⟩ := List.mem_map.1 hb
    exact ⟨p, rfl⟩

/-- The two bytes of a letter in two reads: an error. -/
theorem returnsLines_false : ¬∀ (guestPrefix : Prefix) (reads : List Bytes) (s : List Char), (∀ b ∈ reads, b ≠ []) →
    reads.flatten = utf8 s → (LineReader.new reads guestPrefix).ReturnsLines s := by
  intro h
  have hlines := h .guestLinux [[0xc3], [0xa9]] ['é'] (by decide) (by decide) 1
  exact absurd hlines (by decide)

/-- However a text is cut into texts, the calls return its lines, which make up the text, and the console has the lines that are
no messages, each with the prefix. -/
theorem calls_of_texts (guestPrefix : Prefix) {pieces : List (List Char)} (hne : ∀ p ∈ pieces, p ≠ []) :
    (linesOf pieces.flatten).flatten = pieces.flatten ∧
      ∀ n, ((LineReader.new (pieces.map utf8) guestPrefix).calls n).map ReadCall.result =
          (List.range n).map (fun i => some (expectedLine pieces.flatten i, (utf8 (expectedLine pieces.flatten i)).length)) ∧
        ∀ enabled, ((LineReader.new (pieces.map utf8) guestPrefix).calls n).map
            (fun call => call.printed.flatMap (Printed.console enabled)) =
          (List.range n).map fun i => lineConsole enabled guestPrefix (expectedLine pieces.flatten i) :=
  ⟨flatten_linesOf pieces.flatten, fun n => (represents_new hne).calls n⟩

theorem calls_of_texts_labelStream :
    ((LineReader.new (labelStream.map utf8) .guestLinux).calls 2).map (fun call => call.printed.flatMap (Printed.console true)) =
      ["Linux: é\n\r".toList, []] :=
  (((@calls_of_texts .guestLinux labelStream (by decide)).2 2).2 true).trans (by decide)

end Anylinuxfs
