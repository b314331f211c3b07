import StaticSite.Command.Arguments

/-! The texts of help. -/

namespace StaticSite.Command

def programName : String := "stitch"

def versionText : String := programName ++ " 0.1.0\n"

def Topic.lines : Topic → List String
  | program => [
    "Static-site template expander",
    "",
    "Usage: stitch [OPTIONS] <COMMAND>",
    "",
    "Commands:",
    "  build   Build the site: copy dependencies and expand every page",
    "  render  Expand one page or markup string and print the result",
    "  help    Print this message or the help of the given subcommand(s)",
    "",
    "Options:",
    "      --no-color    Disable colored error output",
    "  -v, --verbose...  Log more (-v for debug, -vv for trace)",
    "  -q, --quiet       Only log warnings and errors",
    "  -h, --help        Print help",
    "  -V, --version     Print version"]
  | build => [
    "Build the site: copy dependencies and expand every page",
    "",
    "Usage: stitch build [OPTIONS]",
    "",
    "Options:",
    "      --no-color               Disable colored error output",
    "      --root <ROOT>            " ++
      "Site root; page, template, include and data paths are relative to it [default: .]",
    "      --config <CONFIG>        Configuration file (default: stitch.toml in the site root)",
    "  -v, --verbose...             Log more (-v for debug, -vv for trace)",
    "  -o, --out <OUT>              Output directory",
    "  -q, --quiet                  Only log warnings and errors",
    "      --page <PAGES>           Page to build. Repeatable; replaces the configured pages",
    "      --content <CONTENT>      " ++
      "Directory of Markdown files embedded into matching <article id> elements",
    "      --dep <DEPENDENCIES>     File or directory copied into the output. Repeatable",
    "      --clean                  Remove the output directory first",
    "      --keep-going             Keep building the remaining pages after a failure",
    "      --max-depth <MAX_DEPTH>  Maximum template nesting depth",
    "  -h, --help                   Print help"]
  | render => [
    "Expand one page or markup string and print the result",
    "",
    "Usage: stitch render [OPTIONS] <INPUT>",
    "",
    "Arguments:",
    "  <INPUT>  Page path relative to the root, or literal markup",
    "",
    "Options:",
    "      --no-color               Disable colored error output",
    "      --root <ROOT>            Site root [default: .]",
    "  -d, --data <DATA>            JSON object bound as the page's scope",
    "  -v, --verbose...             Log more (-v for debug, -vv for trace)",
    "      --fragment               Print a fragment instead of a complete document",
    "  -q, --quiet                  Only log warnings and errors",
    "      --max-depth <MAX_DEPTH>  Maximum template nesting depth",
    "  -h, --help                   Print help"]
  | help => [
    "Print this message or the help of the given subcommand(s)",
    "",
    "Usage: stitch help [COMMAND]...",
    "",
    "Arguments:",
    "  [COMMAND]...  Print help for the subcommand(s)"]

def Topic.text (t : Topic) : String := String.join (t.lines.map (· ++ "\n"))

end StaticSite.Command
