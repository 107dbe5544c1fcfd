/-
# Help

What is printed when help is asked for: an overview of the subcommands, or the flags
of one of them.
-/

namespace Wavefront.CommandLine

/-- What help can be about. -/
inductive Topic where
  | overview
  | grid
deriving DecidableEq, Repr

namespace Topic

/-- The lines of help about a topic. -/
def lines : Topic → List String
  | overview => [
      "Parallel breadth-first state exploration with a disk-backed frontier",
      "",
      "Usage: tla-explore <COMMAND>",
      "",
      "Commands:",
      "  grid  Explore a two-counter grid",
      "  help  Print this message or the help of the given subcommand(s)",
      "",
      "Options:",
      "  -h, --help     Print help",
      "  -V, --version  Print version"]
  | grid => [
      "Explore a two-counter grid",
      "",
      "Usage: tla-explore grid [OPTIONS]",
      "",
      "Options:",
      "      --max-x <MAX_X>                      [default: 200]",
      "      --max-y <MAX_Y>                      [default: 200]",
      "      --max-sum <MAX_SUM>                  Check the invariant x + y <= MAX_SUM",
      "  -w, --workers <WORKERS>                  Worker threads (0 = one per core)",
      "      --page-size <PAGE_SIZE>              States per page (default: grows with the frontier)",
      "      --in-memory-pages <IN_MEMORY_PAGES>  Pages kept in memory before spilling to disk",
      "      --disk-dir <DISK_DIR>                Directory for page files and trace logs",
      "      --local-backlog <LOCAL_BACKLOG>      States a worker keeps locally before sharing",
      "      --poll-ms <POLL_MS>                  Milliseconds between polls for a spilled page [default: 50]",
      "      --keep-files                         Keep page files and trace logs after the run",
      "  -h, --help                               Print help"]

end Topic

end Wavefront.CommandLine
