import ClauseTriage.Text.Column

/-!
# Usage

What the program says of itself.
-/
namespace ClauseTriage.Cli

def versionText : String := "keepgen 0.1.0\n"

/-- Commands and options, one to a line. -/
def usageText : String :=
  Text.endLines
    ["Trains clause keep/discard predictors and compiles them to C++",
     "",
     "Usage: keepgen [-v] <COMMAND>",
     "",
     "  train [DATA] [OPTIONS]   cluster, select features, train and (with --code) emit headers",
     "    --code <BASE>          emit headers using this base name",
     "    --out <DIR>            output directory for generated headers [default: .]",
     "    --clusters <N>         number of clusters [default: 7]",
     "    --greedybest <N>       number of features the search should select [default: 40]",
     "    --top <N>              size of the candidate pool [default: 40]",
     "    --depth <N>            maximum tree depth",
     "    --split <N>            minimum samples to split a node [default: 80]",
     "    --only <SHARE>         share of the dataset to use [default: 0.999]",
     "    --final                use the built-in feature list instead of a search",
     "    --features <A,B,..>    use exactly these features instead of a search",
     "    --nordb1               drop second-generation (rdb1) statistics",
     "    --check                report non-finite or out-of-range values",
     "    --conf                 print confusion matrices",
     "    --dot <FILE>           write the final trees as graphs",
     "    --trace <FILE>         write every scored trial of the search",
     "    --save-models <DIR>    save the final models",
     "    --seed <N>             seed of all random choices [default: 42]",
     "    --label <NAME>         label column [default: x.class]",
     "    --tree, --forest, --svm, --lreg   family of the final models",
     "  compile --model <FILE> --features <A,B,..> --code <BASE> [--out <DIR>]",
     "                           compile a fitted tree or ensemble into a header",
     "  clusters --centers <FILE> --code <BASE> [--out <DIR>]",
     "                           compile fitted centroids into a router header",
     "",
     "  -v, --verbose            more messages",
     "  -h, --help               this text",
     "  -V, --version            the version"]

end ClauseTriage.Cli
